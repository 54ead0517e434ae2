import Premise.Reference.Proofs.JournalProofs

/-!
# Proofs: the calls of the protocol

Every call that records what it does keeps the recorded statuses faithful, so that the replay of the
journal reproduces the statuses of every run of such calls.
-/

namespace Premise.Reference

open Collections Control Premise.Graph Js FrontierEngine
  Protocol Protocol.V1 Relation MemoryStateStore

variable {result : ValidationResult} {memoryId : String} {changes : List StatusChange}
    {s' s states : MemoryStateStore} {graph : DependencyGraph} {envelope : MemoryEnvelope}

namespace ReferenceProtocol

variable {p p' p₁ : ReferenceProtocol} {clock : Option Int}

theorem Faithful.withValidations (h : Faithful p) {validations : List PendingValidation}
    (hprepared : ∀ pending ∈ validations, ∀ item ∈ pending.prepared,
      isValidationResult item.result = true) : Faithful { p with validations := validations } where
  recording :=
    { sound := h.recording.sound
      free := h.recording.free
      named := h.recording.named
      unused := h.recording.unused
      prepared := hprepared
      replay := h.recording.replay }
  bounds := h.bounds

theorem applyEvent_sourceChanged (M : Memories) (event : SourceChangedEvent) :
    M.applyEvent event.toEvent.body = .ok M := rfl

theorem Recording.emit_signal (h : Recording p) {event : SourceChangedEvent}
    (hemit : p.emit event.toEvent = (p₁, .ok ())) (hforeign : p.ForeignId event.eventId) :
    Recording p₁ ∧ p₁.states = p.states ∧ p₁.validations = p.validations ∧
      (∀ id, p₁.recorded id = p.recorded id) ∧ isDateTime event.occurredAt = true := by
  unfold emit at hemit
  cases happend : p.journal.append event.toEvent with
  | error err =>
    rw [happend] at hemit
    cases hemit
  | ok journal =>
    rw [happend] at hemit
    obtain ⟨rfl, -⟩ := Prod.mk.inj hemit
    obtain ⟨hvalid, hnew, rfl⟩ := append_eq_ok happend
    refine ⟨⟨h.sound, h.free, h.named, ?_, h.prepared, ?_⟩, rfl, rfl, fun id => ?_, ?_⟩
    · intro event' hevent kind memoryId n hn
      rcases List.mem_append.mp hevent with hevent | hevent
      · exact h.unused event' hevent kind memoryId n hn
      · rw [List.mem_singleton.mp hevent]
        exact hforeign kind memoryId n hn
    · obtain ⟨r, hr, hmirrors⟩ := h.replay
      obtain ⟨r', hr', hsame⟩ := hr.append hvalid hnew (applyEvent_sourceChanged r.memories event)
        (hmirrors.shape h.sound.framed)
      exact ⟨r', hr', hmirrors.congr hsame⟩
    · unfold recorded
      rw [List.foldl_append]
      rfl
    · unfold validatePremiseEvent at hvalid
      simp only [List.append_eq_nil_iff, addIf_eq_nil, Bool.not_eq_false'] at hvalid
      exact hvalid.1.1.2

theorem acceptable_signal {next : MemoryStatus} (hnext : .stale ≤ next) (hdate : isDateTime occurredAt = true) :
    Acceptable next occurredAt "signal" none where
  date := hdate
  reasoned := by decide
  versioned := nofun
  unknown := fun _ => by decide
  fresh := by
    rintro rfl
    exact absurd hnext (by decide)

theorem Faithful.signal (h : Faithful p) {event : SourceChangedEvent}
    (hrecords : p.Records clock (.signal event)) : Faithful (p.signal clock event).1 := by
  unfold ReferenceProtocol.signal
  obtain ⟨p₁, result, hemit⟩ : ∃ p₁ result, p.emit event.toEvent = (p₁, result) := ⟨_, _, rfl⟩
  rw [hemit]
  cases result with
  | error err =>
    have hsame : p₁ = p := by
      unfold emit at hemit
      cases happend : p.journal.append event.toEvent with
      | error err =>
        rw [happend] at hemit
        exact (Prod.mk.inj hemit).1.symm
      | ok journal =>
        rw [happend] at hemit
        cases (Prod.mk.inj hemit).2
    rw [hsame]
    exact h
  | ok _ =>
    obtain ⟨hforeign, hmark⟩ := hrecords ⟨p₁, hemit⟩
    obtain ⟨hp1, hstates, -, hrecorded, hdate⟩ := h.recording.emit_signal hemit hforeign
    dsimp only
    rw [hstates]
    rcases marking_cases h.recording.sound h.recording.free clock
      (p.states.memoryIdsForSource event.sourceUri) .stale with ⟨err, heq⟩ | ⟨s', changes, heq, hmarking⟩
    · rw [heq]
      refine ⟨hp1.withStates h.recording.sound (by rw [hstates]; exact Updated.refl _), ?_⟩
      intro id direct hdirect
      exact h.bounds id direct ((hrecorded id).symm.trans hdirect)
    · rw [heq]
      dsimp only
      obtain ⟨p', result, happend, hfaithful, -⟩ := @Faithful.marked p _ _ _ _ _
        changes event.occurredAt "signal" (fun _ => none) h hp1 hstates
        hrecorded ⟨hmarking, fun _ hc => hc, fun _ hc _ => hc, fun _ _ hc _ => hc,
          Or.inl ⟨fun c hc _ => acceptable_signal (hmarking.le_status hc) hdate, fun _ => hmark⟩⟩
      rw [happend]
      cases result with
      | error | ok => exact hfaithful

/-! ## Validations -/

theorem validationResult_date (h : isValidationResult result = true) : isDateTime result.checkedAt = true := by
  unfold isValidationResult at h
  simp only [Bool.and_eq_true] at h
  exact h.1.1.2

theorem validationResult_version (h : isValidationResult result = true) {v : VersionReference}
    (hv : result.version = some v) : isVersion v = true := by
  unfold isValidationResult at h
  rw [Bool.and_eq_true, hv] at h
  obtain ⟨-, h⟩ := h
  split_ifs at h with hresult
  · exact h
  · cases h

theorem text_eq_unchanged {result : ValidatorResult} :
    ValidatorResult.text result = "UNCHANGED" ↔ result = .unchanged := by
  cases result <;> decide

theorem text_ne_empty (result : ValidatorResult) : ValidatorResult.text result ≠ "" := by
  cases result <;> decide

/-- A transition after a validation is acceptable unless the memory stays `UNKNOWN`. -/
theorem acceptable_result (h : isValidationResult result = true) {id : String} {next : MemoryStatus}
    (hunknown : next = .unknown → result.result ≠ .unchanged) (hfresh : next = .fresh → result.result = .unchanged) :
    Acceptable next result.checkedAt (ValidatorResult.text result.result)
      (if id = memoryId then result.version else none) where
  date := validationResult_date h
  reasoned := text_ne_empty _
  versioned := by
    intro v hv
    split_ifs at hv with hid
    exact validationResult_version h hv
  unknown := fun hnext htext => hunknown hnext (text_eq_unchanged.mp htext)
  fresh := fun hnext => text_eq_unchanged.mpr (hfresh hnext)

/-- The changes whose transitions are appended after a validation. -/
def appended (memoryId : String) (changes : List StatusChange) : List StatusChange :=
  changes.filter (fun change =>
    decide (change.state.memoryId = memoryId ∨ change.previousStatus ≠ change.state.status))

theorem mem_appended {c : StatusChange} : c ∈ appended memoryId changes ↔
      c ∈ changes ∧ (c.state.memoryId = memoryId ∨ c.previousStatus ≠ c.state.status) := by
  unfold appended
  rw [List.mem_filter, decide_eq_true_eq]

theorem marks_changed {item : Prepared} (hvalid : isValidationResult item.result = true)
    (hmarking : Marking p.states s' [item.memoryId] (statusForResult item.result.result) changes)
    (hresult : item.result.result ≠ .unchanged)
    (hmark : p.RecordsMark [item.memoryId] (statusForResult item.result.result)) :
    ((∀ c ∈ appended item.memoryId changes,
        Emits c.previousStatus c.state.status (ValidatorResult.text item.result.result) →
        Acceptable c.state.status item.result.checkedAt (ValidatorResult.text item.result.result)
          (if c.state.memoryId = item.memoryId then item.result.version else none)) ∧
      (ValidatorResult.text item.result.result ≠ "UNCHANGED" →
        p.RecordsMark [item.memoryId] (statusForResult item.result.result))) := by
  refine ⟨fun c hc _ => acceptable_result hvalid (fun _ => hresult) (fun hfresh => ?_), fun _ => hmark⟩
  have hle := hmarking.le_status (mem_appended.mp hc).1
  rw [hfresh] at hle
  cases hkind : item.result.result with
  | unchanged => rfl
  | changed | missing | unknown => rw [hkind] at hle; exact absurd hle (by decide)

theorem marks_unchanged (h : Faithful p) {item : Prepared} (hvalid : isValidationResult item.result = true)
    (hmarking : Marking p.states s' [item.memoryId] .fresh changes) (hresult : item.result.result = .unchanged) :
    (∀ c ∈ appended item.memoryId changes,
      Acceptable c.state.status item.result.checkedAt (ValidatorResult.text item.result.result)
        (if c.state.memoryId = item.memoryId then item.result.version else none)) ∨
    ((∀ id ∈ p.states.records.keys, s'.dependencyStatus id = p.states.dependencyStatus id) ∧
      ∀ id, s'.ownStatus id ≤ p.states.ownStatus id) := by
  have hsound := h.recording.sound
  have hcases : ∀ t : MemoryStatus, .unknown ≤ t → t = .unknown ∨ t = .invalid := by
    intro t
    cases t <;> decide
  have hkey := hmarking.known item.memoryId (List.mem_singleton_self _)
  by_cases hroot : s'.dependencyStatus item.memoryId = .unknown
  · refine .inr ⟨fun id hid => hmarking.status_eq hsound ?_ hid, fun id => ?_⟩
    · have hle := hmarking.status_le hsound hkey
      rw [hroot] at hle ⊢
      rcases hcases _ hle with hsame | hinvalid
      · exact hsame.symm
      · rw [hmarking.invalid hsound hkey hinvalid] at hroot
        cases hroot
    · rw [hmarking.own]
      exact markedOwn_fresh_le p.states _ id
  · refine .inl fun c hc => acceptable_result hvalid (fun hunknown => ?_) (fun _ => hresult)
    obtain ⟨hc, hwhy⟩ := mem_appended.mp hc
    obtain ⟨hid, hprevious, hstatus, -⟩ := hmarking.change c hc
    rw [hstatus] at hunknown
    rcases hwhy with hmemory | hdiffers
    · rw [hmemory] at hunknown
      exact absurd hunknown hroot
    · have hle := hmarking.status_le hsound hid
      rw [hunknown] at hle
      rcases hcases _ hle with hsame | hinvalid
      · rw [hprevious, hstatus, hunknown, hsame] at hdiffers
        exact absurd rfl hdiffers
      · rw [hmarking.invalid hsound hid hinvalid] at hunknown
        cases hunknown

theorem Faithful.applyPrepared (h : Faithful p) {item : Prepared}
    (hvalid : isValidationResult item.result = true)
    (hmark : item.result.result ≠ .unchanged → p.RecordsMark [item.memoryId] (statusForResult item.result.result)) :
    Faithful (p.applyPrepared clock item).1 := by
  unfold ReferenceProtocol.applyPrepared
  dsimp only
  rcases marking_cases h.recording.sound h.recording.free clock [item.memoryId]
    (statusForResult item.result.result) with ⟨err, heq⟩ | ⟨s', changes, heq, hmarking⟩
  · rw [heq]
    exact h
  · rw [heq]
    dsimp only
    obtain ⟨p', result, happend, hfaithful, -⟩ := @Faithful.marked p _ _ _ _ _
      (appended item.memoryId changes) item.result.checkedAt (ValidatorResult.text item.result.result)
      (fun memoryId => if memoryId = item.memoryId then item.result.version else none)
      h h.recording rfl (fun _ => rfl)
      { marking := hmarking
        sub := fun c hc => (mem_appended.mp hc).1
        changed := fun c hc hdiffers => mem_appended.mpr ⟨hc, Or.inr hdiffers⟩
        unchanged := fun _ c hc hroot => mem_appended.mpr ⟨hc, Or.inl (List.mem_singleton.mp hroot)⟩
        recorded := by
          by_cases hresult : item.result.result = .unchanged
          · rw [show statusForResult item.result.result = .fresh by rw [hresult]; rfl] at hmarking
            refine (marks_unchanged h hvalid hmarking hresult).imp_left fun hall => ?_
            exact ⟨fun c hc _ => hall c hc, fun hne => absurd (text_eq_unchanged.mpr hresult) hne⟩
          · exact .inl (marks_changed hvalid hmarking hresult (hmark hresult)) }
    unfold appended at happend
    rw [happend]
    cases result with
    | error | ok => exact hfaithful

theorem Faithful.applyAll {items : List Prepared} (h : Faithful p)
    (hvalid : ∀ item ∈ items, isValidationResult item.result = true)
    (hrecords : RecordsResults clock p items) : Faithful (applyAll clock p items).1 := by
  induction items generalizing p with
  | nil => exact h
  | cons item items ih =>
    obtain ⟨hmark, hrest⟩ := hrecords
    have hfirst := @Faithful.applyPrepared p clock h item (hvalid item List.mem_cons_self) hmark
    unfold ReferenceProtocol.applyAll
    generalize hcall : p.applyPrepared clock item = call at hfirst hrest
    obtain ⟨p₁, result⟩ := call
    cases result with
    | error err => exact hfirst
    | ok result =>
      have hthen := ih hfirst (fun item' hitem => hvalid item' (List.mem_cons_of_mem _ hitem))
        (hrest result rfl)
      dsimp only at hthen ⊢
      generalize ReferenceProtocol.applyAll clock p₁ items = call at hthen
      obtain ⟨p', result'⟩ := call
      cases result' with
      | error | ok => exact hthen

theorem commit_fst (p : ReferenceProtocol) (clock : Option Int) (memoryIds : List String)
    (items : List Prepared) : (p.commit clock memoryIds items).1 = (applyAll clock p items).1 := by
  unfold commit
  generalize applyAll clock p items = call
  obtain ⟨p', result⟩ := call
  cases result with
  | error | ok => rfl

theorem Faithful.validate (h : Faithful p) (memoryIds : List String) : Faithful (p.validate clock memoryIds).1 := by
  unfold ReferenceProtocol.validate
  split
  · exact h
  · dsimp only
    rw [commit_fst]
    exact h
  · refine h.withValidations fun pending hpending item hitem => ?_
    rcases List.mem_append.mp hpending with hpending | hpending
    · exact h.recording.prepared pending hpending item hitem
    · rw [List.mem_singleton.mp hpending] at hitem
      cases hitem

theorem prepare_ok {pending pending' : PendingValidation} {rest : List String} {answer : ValidationAnswer}
    (h : p.prepare pending memoryId rest answer = .ok pending')
    (hprepared : ∀ item ∈ pending.prepared, isValidationResult item.result = true) :
    ∀ item ∈ pending'.prepared, isValidationResult item.result = true := by
  unfold prepare at h
  cases hstate : p.states.stateOf memoryId with
  | none =>
    rw [hstate] at h
    cases h
  | some state =>
    rw [hstate] at h
    cases hresult : resultOf memoryId answer with
    | error err =>
      rw [hresult] at h
      cases h
    | ok result =>
      rw [hresult] at h
      dsimp only at h
      split_ifs at h with hinvalid
      cases h
      intro item hitem
      rcases List.mem_append.mp hitem with hitem | hitem
      · exact hprepared item hitem
      · rw [List.mem_singleton.mp hitem]
        rw [not_or, Bool.not_eq_false] at hinvalid
        exact hinvalid.2

theorem Faithful.answer (h : Faithful p) {i : Nat} {answer : ValidationAnswer}
    (hrecords : p.Records clock (.answer i answer)) : Faithful (p.answer clock i answer).1 := by
  have hclosed : Faithful { p with validations := p.validations.eraseIdx i } :=
    h.withValidations (fun pending hpending =>
      h.recording.prepared pending (List.mem_of_mem_eraseIdx hpending))
  unfold ReferenceProtocol.answer
  cases hpending : p.validations[i]? with
  | none => exact h
  | some pending =>
    have hprepared := h.recording.prepared pending (List.mem_of_getElem? hpending)
    dsimp only
    cases horder : pending.order with
    | nil => exact h
    | cons memoryId rest =>
      dsimp only
      cases hprepare : p.prepare pending memoryId rest answer with
      | error err => exact hclosed
      | ok pending' =>
        have hvalid := prepare_ok hprepare hprepared
        split_ifs with hrest
        · subst hrest
          rw [commit_fst]
          exact hclosed.applyAll hvalid (hrecords pending memoryId pending' hpending horder hprepare)
        · refine h.withValidations fun other hother item hitem => ?_
          rcases List.mem_or_eq_of_mem_set hother with hother | rfl
          · exact h.recording.prepared other hother item hitem
          · exact hvalid item hitem

/-! ## New memories -/

theorem withoutExpiry_added {s : MemoryStateStore} {graph : DependencyGraph}
    {envelope : MemoryEnvelope} (hfree : s.WithoutExpiry) (httl : envelope.validity.policy ≠ .ttl) :
    (s.added graph envelope).WithoutExpiry := by
  intro id r hget
  rw [get?_added] at hget
  split_ifs at hget with hid
  · cases hget
    exact decide_eq_false httl
  · exact hfree id r hget

theorem named_of_keys (hkeys : states.records.keys = s.records.keys ++ [memoryId]) (hmemory : memoryId ≠ "")
    (hnamed : ∀ id ∈ s.records.keys, id ≠ "") : ∀ id ∈ states.records.keys, id ≠ "" := by
  intro id hid
  rw [hkeys, List.mem_append, List.mem_singleton] at hid
  rcases hid with hid | rfl
  · exact hnamed id hid
  · exact hmemory

theorem mirrors_new {M : Memories} {m : Replayed} {record : StateRecord} (hmirrors : Mirrors s M)
    (hnew : s.records.get? memoryId = none) (hkeys : states.records.keys = s.records.keys ++ [memoryId])
    (hget : states.records.get? memoryId = some record) (hdepends : record.envelope.dependsOn = m.dependsOn)
    (hother : ∀ id, id ≠ memoryId → (states.records.get? id).map (fun r => r.envelope) = (s.records.get? id).map (fun r => r.envelope)) :
    
    Mirrors states (OrderedMap.set M memoryId m) where
  keys := by
    have hkey : memoryId ∉ OrderedMap.keys M := by
      rw [hmirrors.keys]
      exact s.records.get?_eq_none_iff.mp hnew
    rw [OrderedMap.keys_set_of_not_mem M hkey, hkeys, hmirrors.keys]
  dependsOn := by
    intro id
    by_cases hid : id = memoryId
    · subst hid
      rw [Memories.dependenciesOf_eq (OrderedMap.get?_set_self _ _ _)]
      unfold MemoryStateStore.dependsOn
      rw [hget]
      exact hdepends.symm
    · have hsame := congrArg (Option.map MemoryEnvelope.dependsOn) (hother id hid)
      rw [Option.map_map, Option.map_map] at hsame
      have hold := hmirrors.dependsOn id
      unfold Memories.dependenciesOf MemoryStateStore.dependsOn at hold ⊢
      rw [OrderedMap.get?_set_of_ne _ _ hid, hold]
      exact (congrArg (fun o => Option.getD o []) hsame).symm

theorem keys_added (hnew : s.records.get? envelope.memoryId = none) :
    (s.added graph envelope).records.keys = s.records.keys ++ [envelope.memoryId] :=
  OrderedMap.keys_set_of_not_mem _ (s.records.get?_eq_none_iff.mp hnew)

theorem Faithful.emitted (h : Faithful p) {event : PremiseEvent} (hrecording : Recording (p.emitted states event))
    (hmemory : event.body.memoryId? = some memoryId)
    (hother : ∀ id, id ≠ memoryId → p.states.records.get? id ≠ none → states.records.get? id = p.states.records.get? id)
    (hnew : ∀ direct, (p.emitted states event).recorded memoryId = some direct → states.ownStatus memoryId ≤ direct ∧ direct ≤ states.dependencyStatus memoryId) :
    
    Faithful (p.emitted states event) where
  recording := hrecording
  bounds := by
    intro id direct hdirect
    by_cases hid : id = memoryId
    · subst hid
      exact hnew direct hdirect
    · rw [recorded_emitted, recordedBy_of_ne hmemory hid] at hdirect
      have hbounds := h.bounds id direct hdirect
      have hsame := hother id hid (fun hnone => by
        have hkey := (h.recording.known id).mpr ⟨direct, hdirect⟩
        exact p.states.records.get?_eq_none_iff.mp hnone hkey)
      rw [← ownStatus_congr hsame, ← dependencyStatus_congr hsame] at hbounds
      exact hbounds

theorem recorded_unknown (h : Recording p) {id : String} (hnew : p.states.records.get? id = none) :
    p.recorded id = none := by
  by_contra hne
  obtain ⟨direct, hdirect⟩ := Option.ne_none_iff_exists'.mp hne
  exact p.states.records.get?_eq_none_iff.mp hnew ((h.known id).mpr ⟨direct, hdirect⟩)

theorem recordedBy_registered (memoryId : String) (direct : Option MemoryStatus)
    (envelope : MemoryEnvelope) : recordedBy memoryId direct (.memoryRegistered memoryId envelope)
      = some envelope.validity.status := if_pos rfl

theorem recordedBy_derived (memoryId : String) (dependsOn : List String) :
    recordedBy memoryId none (.memoryDerived memoryId dependsOn) = some .fresh := if_pos rfl

theorem recordedBy_replaced (memoryId replacementMemoryId : String) (direct : MemoryStatus) :
    recordedBy memoryId (some direct) (.memoryReplaced memoryId replacementMemoryId) = some .fresh :=
  if_pos rfl

theorem get?_replayed {M : Memories} (hmirrors : Mirrors s M) {id : String} (hnew : s.records.get? id = none) :
    M.get? id = none := by
  refine (M.get?_eq_none_iff).mpr fun hmem => ?_
  rw [hmirrors.keys] at hmem
  exact s.records.get?_eq_none_iff.mp hnew hmem

theorem valid_registered (h : validateMemoryEnvelope envelope = []) {eventId : String} (hevent : eventId ≠ "") :
    validatePremiseEvent ⟨eventId, envelope.validity.checkedAt,
      .memoryRegistered envelope.memoryId envelope⟩ = [] := by
  have hformed := wellFormed_of_valid h
  unfold validatePremiseEvent validatePayload PremiseEvent.memoryId? EventBody.memoryId?
  simp [addIf, h, isNonEmptyString_iff.mpr hevent, hformed.checkedAt, isNonEmptyString_iff.mpr hformed.named]

theorem Faithful.register (h : Faithful p) {input : MemoryEnvelope}
    (httl : input.validity.policy ≠ .ttl) : Faithful (p.register input).1 := by
  unfold ReferenceProtocol.register
  cases hparse : parseMemoryEnvelope input with
  | error err => exact h
  | ok parsed =>
    obtain ⟨rfl, hvalid⟩ := parseMemoryEnvelope_ok hparse
    dsimp only
    split_ifs with hexisting
    · exact h
    have hsound := (@effect_register p.states (fun _ => False) h.recording.sound parsed).sound
    rcases p.states.register_cases parsed with ⟨result, heq, hresult⟩ | ⟨hnew, hdepends, hformed, heq⟩
    · rw [heq]
      cases result with
      | error err => exact h
      | ok state =>
        obtain ⟨r, hget, henvelope⟩ := hresult state rfl
        rw [stateOf_eq_some.mpr ⟨r, hget, rfl⟩, Option.any_some, decide_eq_true_eq] at hexisting
        exact absurd henvelope hexisting
    · rw [heq] at hsound ⊢
      dsimp only at hsound ⊢
      generalize hstates : p.states.added (p.states.graph.ensureNode parsed.memoryId) parsed = states
        at hsound ⊢
      have hget : states.records.get? parsed.memoryId = some (createRecord parsed) := by
        rw [← hstates, get?_added, if_pos rfl]
      have hother : ∀ id, id ≠ parsed.memoryId → states.records.get? id = p.states.records.get? id := by
        intro id hid
        rw [← hstates, get?_added, if_neg hid]
      have hkeys : states.records.keys = p.states.records.keys ++ [parsed.memoryId] := by
        rw [← hstates, keys_added hnew]
      have hfree : states.WithoutExpiry := by
        rw [← hstates]
        exact withoutExpiry_added h.recording.free httl
      obtain ⟨r, hr, hmirrors⟩ := h.recording.replay
      have happly : r.memories.applyEvent (.memoryRegistered parsed.memoryId parsed)
          = .ok (OrderedMap.set r.memories parsed.memoryId
            ⟨parsed.validity.status, parsed.validity.status, parsed.dependsOn⟩) := by
        simp only [Memories.applyEvent]
        rw [get?_replayed hmirrors hnew]
        rfl
      obtain ⟨hemit, hrecording⟩ := h.recording.emitNext hsound hfree
        (named_of_keys hkeys hformed.named h.recording.named) hr happly
        (mirrors_new hmirrors hnew hkeys hget rfl (fun id hid => by rw [hother id hid]))
        (valid_registered hvalid (generatedId_ne_empty "registered" parsed.memoryId p.sequence))
      rw [hemit]
      refine h.emitted hrecording rfl (fun id hid _ => hother id hid) (fun direct hdirect => ?_)
      rw [recorded_emitted] at hdirect
      obtain rfl := Option.some.inj ((recordedBy_registered _ _ _).symm.trans hdirect)
      rw [ownStatus_eq hget, dependencyStatus_eq hget, own_createRecord]
      exact ⟨le_rfl, le_rfl⟩

theorem valid_derived (h : WellFormed envelope) (hdepends : envelope.dependsOn ≠ []) {eventId : String}
    (hevent : eventId ≠ "") :
    validatePremiseEvent ⟨eventId, envelope.validity.checkedAt,
      .memoryDerived envelope.memoryId envelope.dependsOn⟩ = [] := by
  have hall : envelope.dependsOn.all isNonEmptyString = true :=
    List.all_eq_true.mpr (fun id hid => isNonEmptyString_iff.mpr (h.dependsOn_named id hid))
  have hunique : duplicated envelope.dependsOn = false := by
    unfold duplicated
    rw [decide_eq_false_iff_not, not_not]
    exact h.dependsOn_nodup
  unfold validatePremiseEvent validatePayload PremiseEvent.memoryId? EventBody.memoryId?
  simp [addIf, isNonEmptyString_iff.mpr hevent, h.checkedAt, isNonEmptyString_iff.mpr h.named, hall, hunique, hdepends]

theorem Faithful.derive (h : Faithful p) {input : MemoryEnvelope}
    (httl : input.validity.policy ≠ .ttl) (hrecords : p.Records clock (.derive input)) :
    Faithful (p.derive clock input).1 := by
  unfold ReferenceProtocol.derive
  have hsound := (@effect_derive p.states clock (fun _ => False) h.recording.sound input).sound
  rcases derive_cases h.recording.sound.framed clock input with
    ⟨err, heq⟩ | ⟨hnew, hformed, hdepends, hknown, graph, hlinked, heq⟩
  · rw [heq]
    exact h
  have hself : ∀ id, ¬ graph.Dep id id := fun id hid =>
    not_transGen_self hlinked.inv.acyclic id (TransGen.single hid)
  have hrecomputed := recomputed_derived p.states graph clock input hself
  have hfirst : (p.states.added graph input).records.get? input.memoryId = some (createRecord input) := by
    rw [get?_added, if_pos rfl]
  have hadded := @withoutExpiry_added _ graph _ h.recording.free httl
  have hget := hrecomputed.inside input.memoryId (List.mem_singleton_self _) _ hfirst
  rw [evaluated_of_not_ttl (hadded _ _ hfirst)] at hget
  have hreturn := returnState_ok hget
  have hfresh : input.validity.status = .fresh := hrecords ⟨_, by rw [heq, hreturn]⟩
  rw [heq, hreturn] at hsound ⊢
  have hother : ∀ id, id ≠ input.memoryId →
      (p.states.derived graph clock input).records.get? id = p.states.records.get? id := by
    intro id hid
    rw [hrecomputed.outside id (fun hmem => hid (List.mem_singleton.mp hmem)), get?_added, if_neg hid]
  have hkeys : (p.states.derived graph clock input).records.keys = p.states.records.keys ++ [input.memoryId] := by
    rw [hrecomputed.updated.keys, keys_added hnew]
  generalize p.states.derived graph clock input = states at hsound hget hother hkeys hrecomputed ⊢
  obtain ⟨r, hr, hmirrors⟩ := h.recording.replay
  have happly : r.memories.applyEvent (.memoryDerived input.memoryId input.dependsOn)
      = .ok (OrderedMap.set r.memories input.memoryId ⟨.fresh, .fresh, input.dependsOn⟩) := by
    have hall : input.dependsOn.any (fun dependency => !r.memories.has dependency) = false := by
      refine List.any_eq_false.mpr fun d hd => ?_
      rw [Bool.not_eq_true, Bool.not_eq_false', OrderedMap.has_eq_true, hmirrors.keys]
      exact hknown d hd
    simp only [Memories.applyEvent]
    rw [hall, get?_replayed hmirrors hnew]
    rfl
  obtain ⟨hemit, hrecording⟩ := h.recording.emitNext hsound
    (hrecomputed.updated.withoutExpiry hadded) (named_of_keys hkeys hformed.named h.recording.named)
    hr happly
    (mirrors_new hmirrors hnew hkeys hget rfl (fun id hid => by rw [hother id hid]))
    (valid_derived hformed hdepends (generatedId_ne_empty "derived" input.memoryId p.sequence))
  show Faithful (p.emitNext states "derived" input.memoryId input.validity.checkedAt
    (.memoryDerived input.memoryId input.dependsOn)).1
  rw [hemit]
  refine h.emitted hrecording rfl (fun id hid _ => hother id hid) (fun direct hdirect => ?_)
  rw [recorded_emitted, recorded_unknown h.recording hnew] at hdirect
  obtain rfl := Option.some.inj ((recordedBy_derived _ _).symm.trans hdirect)
  refine ⟨?_, ?_⟩
  · rw [ownStatus_eq hget, own_status, own_createRecord]
    exact hfresh.le
  · cases states.dependencyStatus input.memoryId <;> decide

/-! ## Replacements -/

theorem valid_replaced (h : WellFormed envelope) {eventId : String} (hevent : eventId ≠ "") :
    validatePremiseEvent ⟨eventId, envelope.validity.checkedAt,
      .memoryReplaced envelope.memoryId envelope.memoryId⟩ = [] := by
  unfold validatePremiseEvent validatePayload PremiseEvent.memoryId? EventBody.memoryId?
  simp [addIf, isNonEmptyString_iff.mpr hevent, h.checkedAt, isNonEmptyString_iff.mpr h.named]

theorem Faithful.withGraph (h : Faithful p) (hsound : Sound { p.states with graph := graph }) :
    Faithful { p with states := { p.states with graph := graph } } where
  recording :=
    { sound := hsound
      free := h.recording.free
      named := h.recording.named
      unused := h.recording.unused
      prepared := h.recording.prepared
      replay := by
        obtain ⟨r, hr, hmirrors⟩ := h.recording.replay
        exact ⟨r, hr, hmirrors.keys, hmirrors.dependsOn⟩ }
  bounds := h.bounds

/-- What a replacement does to the memories. -/
structure Replacing (s s' : MemoryStateStore) (input : MemoryEnvelope) : Prop where
  sound : Sound s'
  free : s'.WithoutExpiry
  keys : s'.records.keys = s.records.keys
  own : s'.ownStatus = refreshedOwn s input.memoryId
  dependsOn : s'.dependsOn = s.dependsOn

theorem own_replaceRecord {current : StateRecord} (hfresh : envelope.validity.status = .fresh) :
    (replaceRecord current envelope).own = .fresh := by
  unfold replaceRecord StateRecord.own
  rw [hfresh]
  rfl

theorem replacing_recomputed {current : StateRecord} {input : MemoryEnvelope} {affected : String → Prop}
    (hfree : s.WithoutExpiry) (httl : input.validity.policy ≠ .ttl)
    (hcurrent : s.records.get? input.memoryId = some current)
    (hdepends : input.dependsOn = s.dependsOn input.memoryId) (hfresh : input.validity.status = .fresh)
    (hsound : Sound s') (hrecomputed : Recomputed clock affected (s.replacing graph current input) s') :
    Replacing s s' input := by
  have hreplaced : (s.replacing graph current input).WithoutExpiry := by
    intro id r hget
    rw [get?_replacing] at hget
    split_ifs at hget with hid
    · cases hget
      exact decide_eq_false httl
    · exact hfree id r hget
  refine ⟨hsound, hrecomputed.updated.withoutExpiry hreplaced, ?_, ?_, ?_⟩
  · exact hrecomputed.updated.keys.trans (OrderedMap.keys_set_of_mem _ (s.records.mem_keys_of_get? hcurrent))
  · rw [hrecomputed.own hreplaced]
    funext id
    unfold ownStatus refreshedOwn
    rw [get?_replacing]
    split_ifs with hid
    · exact own_replaceRecord hfresh
    · rfl
  · funext id
    rw [hrecomputed.updated.dependsOn]
    by_cases hid : id = input.memoryId
    · rw [hid, ← hdepends]
      unfold MemoryStateStore.dependsOn
      rw [get?_replacing, if_pos rfl]
      rfl
    · unfold MemoryStateStore.dependsOn
      rw [get?_replacing, if_neg hid]

theorem Faithful.replace (h : Faithful p) {input : MemoryEnvelope}
    (httl : input.validity.policy ≠ .ttl) (hrecords : p.Records clock (.replace input)) :
    Faithful (p.replace clock input).1 := by
  unfold ReferenceProtocol.replace
  have heffect := (@effect_replace p.states clock h.recording.sound input).sound
  rcases replace_cases h.recording.sound.framed clock input with
    ⟨err, heq⟩ | ⟨err, -, heq⟩ | ⟨hformed, hknown, current, graph, hcurrent, hlinked, heq⟩
  · rw [heq]
    exact h
  · rw [heq] at heffect ⊢
    exact h.withGraph heffect
  obtain ⟨states, hsound, hreturn, hrecomputed⟩ := @replaceWith_spec p.states clock _ _ _
    h.recording.sound hcurrent hlinked hknown
  obtain ⟨record, hget, henvelope, -⟩ := hrecomputed.updated.records input.memoryId _
    ((get?_replacing p.states graph current input _).trans (if_pos rfl))
  have hok := hreturn.trans (returnState_ok hget)
  obtain ⟨hdepends, hfresh, hothers⟩ := hrecords ⟨_, by rw [heq, hok]⟩
  have hreplacing := replacing_recomputed h.recording.free httl hcurrent hdepends hfresh hsound hrecomputed
  rw [heq, hok]
  rw [henvelope]
  obtain ⟨r, hr, hmirrors⟩ := h.recording.replay
  have hkey : input.memoryId ∈ OrderedMap.keys r.memories := by
    rw [hmirrors.keys]
    exact p.states.records.mem_keys_of_get? hcurrent
  obtain ⟨M, happly, hkeys, hfacts⟩ := @applyEvent_known _
    (.memoryReplaced input.memoryId input.memoryId) _ trivial rfl hkey
  have hnamed : ∀ id ∈ states.records.keys, id ≠ "" := by
    rw [hreplacing.keys]
    exact h.recording.named
  obtain ⟨hemit, hrecording⟩ := h.recording.emitNext hsound hreplacing.free hnamed hr happly
    ⟨hkeys.trans (hmirrors.keys.trans hreplacing.keys.symm), fun id => by
      rw [hfacts, hmirrors.dependsOn, hreplacing.dependsOn]⟩
    (valid_replaced hformed (generatedId_ne_empty "replaced" input.memoryId p.sequence))
  show Faithful (p.emitNext states "replaced" input.memoryId input.validity.checkedAt
    (.memoryReplaced input.memoryId input.memoryId)).1
  rw [hemit]
  refine ⟨hrecording, fun id direct hdirect => ?_⟩
  rw [recorded_emitted] at hdirect
  show states.ownStatus id ≤ direct ∧ direct ≤ states.dependencyStatus id
  rw [hreplacing.own]
  unfold refreshedOwn
  by_cases hid : id = input.memoryId
  · subst hid
    obtain ⟨before, hbefore⟩ := (h.recording.known input.memoryId).mp (p.states.records.mem_keys_of_get? hcurrent)
    rw [hbefore] at hdirect
    obtain rfl := Option.some.inj ((recordedBy_replaced _ _ _).symm.trans hdirect)
    rw [if_pos rfl]
    refine ⟨le_rfl, ?_⟩
    cases states.dependencyStatus input.memoryId <;> decide
  · rw [recordedBy_of_ne rfl hid] at hdirect
    rw [if_neg hid]
    refine ⟨(h.bounds id direct hdirect).1, hothers id hid _ direct ?_ hdirect⟩
    have hmem : id ∈ states.records.keys := by
      rw [hreplacing.keys]
      exact (h.recording.known id).mpr ⟨direct, hdirect⟩
    have haggregate := aggregate_cached hsound hmem
    rw [hreplacing.own, hreplacing.dependsOn] at haggregate
    exact haggregate

theorem faithful_empty : Faithful {} where
  recording :=
    { sound := sound_empty
      free := by
        intro id r hget
        rw [get?_empty_records] at hget
        cases hget
      named := fun _ hid => absurd hid List.not_mem_nil
      unused := fun _ hevent => absurd hevent List.not_mem_nil
      prepared := fun _ hpending => absurd hpending List.not_mem_nil
      replay := ⟨{}, replayOf_empty, rfl, fun _ => rfl⟩ }
  bounds := by
    intro id direct hdirect
    cases hdirect

theorem Faithful.perform (h : Faithful p) {call : ProtocolCall} (httl : WithoutTtl call)
    (hrecords : p.Records clock call) : Faithful (p.perform clock call) := by
  cases call with
  | register input => exact h.register httl
  | derive input => exact h.derive httl hrecords
  | replace input => exact h.replace httl hrecords
  | signal event => exact h.signal hrecords
  | validate memoryIds => exact h.validate memoryIds
  | answer i answer => exact h.answer hrecords

theorem faithful_of_reachable (h : (system.restrict (fun p i _ => p.Records i.1 i.2)).Reachable p) : Faithful p := by
  refine h.invariant Faithful ?_ ?_
  · rintro p rfl
    exact faithful_empty
  · rintro p i p' hfaithful ⟨⟨httl, rfl⟩, hrecords⟩
    exact hfaithful.perform httl hrecords

end ReferenceProtocol

open ReferenceProtocol

/-- The replay of the journal reproduces the statuses of every run whose events record what its calls
    do. -/
theorem replay_reproduces (p : ReferenceProtocol)
    (h : (ReferenceProtocol.system.restrict (fun p i _ => p.Records i.1 i.2)).Reachable p) :
    p.Reproduces :=
  (faithful_of_reachable h).reproduces

/-- The run that registers one memory. -/
theorem replay_reproduces_register :
    (({} : ReferenceProtocol).perform none (.register
      { memoryId := "a"
        provenance := some [{ sourceUri := "file:a", observedAt := "2026-01-01T00:00:00Z" }]
        validity :=
          { policy := .immutable
            status := .fresh
            checkedAt := "2026-01-01T00:00:00Z" }
        dependsOn := [] })).Reproduces := by
  refine replay_reproduces _ (System.Reachable.step (System.Reachable.init rfl)
    (i := (none, .register _)) ⟨⟨?_, rfl⟩, trivial⟩)
  exact nofun

/-- A run in which a memory is derived with the status `STALE`. -/
def deriveStale : ReferenceProtocol :=
  let source : MemoryEnvelope :=
    { memoryId := "a"
      provenance := some [{ sourceUri := "file:a", observedAt := "2026-01-01T00:00:00Z" }]
      validity :=
        { policy := .immutable
          status := .fresh
          checkedAt := "2026-01-01T00:00:00Z" }
      dependsOn := [] }
  let conclusion : MemoryEnvelope :=
    { memoryId := "b"
      validity :=
        { policy := .immutable
          status := .stale
          checkedAt := "2026-01-01T00:00:00Z" }
      dependsOn := ["a"] }
  (({} : ReferenceProtocol).perform none (.register source)).perform none (.derive conclusion)

/-- The replay has the memory `FRESH`. -/
theorem derived_stale_is_replayed_fresh : ∃ p, ReferenceProtocol.system.Reachable p ∧ ¬ p.Reproduces := by
  refine ⟨deriveStale, ?_, ?_⟩
  · refine System.Reachable.step (System.Reachable.step (System.Reachable.init rfl)
      (i := (none, .register _)) ⟨?_, rfl⟩) (i := (none, .derive _)) ⟨?_, rfl⟩
    · exact nofun
    · exact nofun
  · rintro ⟨snapshot, hreplay, hsame⟩
    have hreplayed : (replayEvents deriveStale.journal.entries).toOption.map ReplaySnapshot.memories
        = some [⟨"a", .fresh, []⟩, ⟨"b", .fresh, ["a"]⟩] := by decide +kernel
    have hlive : deriveStale.live = [⟨"a", .fresh, []⟩, ⟨"b", .stale, ["a"]⟩] := by decide +kernel
    rw [hreplay] at hreplayed
    have hmemories := Option.some.inj hreplayed
    rw [hsame, hlive] at hmemories
    exact absurd hmemories (by decide)

end Premise.Reference
