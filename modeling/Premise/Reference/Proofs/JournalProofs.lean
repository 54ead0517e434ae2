import Premise.Reference.Proofs.MarkingProofs
import Premise.Reference.Proofs.ReplayProofs

/-!
# Proofs: the journal and its replay

The replay of a journal has the memories of the protocol with their dependencies, and the direct statuses
that the journal records. An event that the journal accepts is replayed after the others.
-/

namespace Premise.Reference

open Collections Control Premise.Graph Js FrontierEngine
  Protocol Protocol.V1 Relation MemoryStateStore

theorem eq_of_append_cons {α : Type} [DecidableEq α] {c : α} {a a' b b' : List α} (hb : c ∉ b)
    (hb' : c ∉ b') (h : a ++ c :: b = a' ++ c :: b') : b = b' := by
  have hsplit : ∀ {l : List α} (d : List α), c ∉ d →
      (l ++ c :: d).reverse.takeWhile (fun x => decide (x ≠ c)) = d.reverse := by
    intro l d hd
    rw [List.reverse_append, List.reverse_cons, List.append_assoc,
      List.takeWhile_append_of_pos (fun x hx => decide_eq_true (by
        rintro rfl
        exact hd (List.mem_reverse.mp hx)))]
    simp
  have heq := congrArg (fun l => l.reverse.takeWhile (fun x => decide (x ≠ c))) h
  rw [hsplit b hb, hsplit b' hb'] at heq
  exact List.reverse_injective heq

theorem separator_not_mem_repr (n : Nat) : ':' ∉ n.repr.toList := by
  rw [Nat.toList_repr]
  intro hmem
  exact absurd (Nat.isDigit_of_mem_toDigits (by decide) (by decide) hmem) (by decide)

variable {memoryId : String} {event : PremiseEvent}

theorem generatedId_sequence {kind kind' memoryId' : String} {m n : Nat}
    (h : generatedId kind memoryId m = generatedId kind' memoryId' n) : m = n := by
  have hlist := congrArg String.toList h
  unfold generatedId at hlist
  have hparts : (kind.toList ++ ':' :: memoryId.toList) ++ ':' :: m.repr.toList
      = (kind'.toList ++ ':' :: memoryId'.toList) ++ ':' :: n.repr.toList := by
    simpa [toString] using hlist
  have hrepr : m.repr = n.repr := String.toList_injective
    (eq_of_append_cons (separator_not_mem_repr m) (separator_not_mem_repr n) hparts)
  have hread := congrArg String.toNat? hrepr
  rw [Nat.toNat?_repr, Nat.toNat?_repr] at hread
  exact Option.some.inj hread

theorem generatedId_ne_empty (kind memoryId : String) (n : Nat) : generatedId kind memoryId n ≠ "" := by
  intro h
  have hlist := congrArg String.toList h
  unfold generatedId at hlist
  simp only [String.toList_append] at hlist
  simp at hlist

/-- The direct status that the events of a journal leave a memory. -/
def EventJournal.recorded (journal : EventJournal) (id : String) : Option MemoryStatus :=
  journal.entries.foldl (fun direct event => ReferenceProtocol.recordedBy id direct event.body) none

structure ReplayOf (journal : EventJournal) (r : Replay) : Prop where
  folded : journal.entries.foldlM Replay.step {} = .ok r
  ids : ∀ id, id ∈ r.eventIds ↔ id ∈ journal.entries.map PremiseEvent.eventId
  settled : ∀ id, r.memories.Settled id
  recorded : ∀ id, (r.memories.get? id).map Replayed.direct = journal.recorded id

theorem replayOf_empty : ReplayOf {} {} where
  folded := rfl
  ids := fun _ => Iff.rfl
  settled := by
    intro id m hget
    rw [OrderedMap.get?_empty] at hget
    cases hget
  recorded := fun _ => rfl

theorem parsePremiseEvent_ok (h : validatePremiseEvent event = []) : parsePremiseEvent event = .ok event := by
  unfold parsePremiseEvent
  rw [if_neg (fun hne => hne h)]

variable {journal : EventJournal} {r : Replay} {M : Memories}

theorem append_ok (hvalid : validatePremiseEvent event = [])
    (hnew : event.eventId ∉ journal.entries.map PremiseEvent.eventId) :
    journal.append event = .ok ⟨journal.entries ++ [event]⟩ := by
  unfold EventJournal.append
  rw [parsePremiseEvent_ok hvalid]
  exact if_neg hnew

theorem append_refused {event : PremiseEvent} (hvalid : validatePremiseEvent event ≠ []) :
    ∃ err, journal.append event = .error err := by
  unfold EventJournal.append parsePremiseEvent
  rw [if_pos hvalid]
  exact ⟨_, rfl⟩

theorem append_eq_ok {journal' : EventJournal} (h : journal.append event = .ok journal') :
    validatePremiseEvent event = [] ∧ event.eventId ∉ journal.entries.map PremiseEvent.eventId ∧
      journal' = ⟨journal.entries ++ [event]⟩ := by
  by_cases hvalid : validatePremiseEvent event = []
  · unfold EventJournal.append at h
    rw [parsePremiseEvent_ok hvalid] at h
    dsimp only at h
    split_ifs at h with hmem
    exact ⟨hvalid, hmem, (Except.ok.inj h).symm⟩
  · obtain ⟨err, heq⟩ := @append_refused journal _ hvalid
    rw [heq] at h
    cases h

theorem ReplayOf.append (h : ReplayOf journal r) (hvalid : validatePremiseEvent event = [])
    (hnew : event.eventId ∉ journal.entries.map PremiseEvent.eventId)
    (happly : r.memories.applyEvent event.body = .ok M) (hshape : M.Shape) :
    ∃ r', ReplayOf ⟨journal.entries ++ [event]⟩ r' ∧ Memories.SameFacts M r'.memories := by
  obtain ⟨M', hrecompute, hsame, hsettled⟩ := Memories.recompute_spec hshape
  have hids : event.eventId ∉ r.eventIds := fun hmem => hnew ((h.ids _).mp hmem)
  refine ⟨⟨M', r.record event, r.eventIds.add event.eventId⟩, ⟨?_, ?_, hsettled, ?_⟩, hsame⟩
  · rw [List.foldlM_append, h.folded]
    show Replay.step r event >>= pure = _
    unfold Replay.step
    rw [parsePremiseEvent_ok hvalid]
    simp only [bind, Except.bind, if_neg hids, happly, hrecompute]
    rfl
  · intro id
    rw [OrderedSet.mem_add, h.ids, List.map_append, List.mem_append, List.map_singleton, List.mem_singleton, or_comm]
  · intro id
    unfold EventJournal.recorded
    rw [List.foldl_append, hsame.direct, Memories.direct_applyEvent happly, h.recorded]
    rfl

/-- The memories are those of the store, with their dependencies. -/
structure Mirrors (s : MemoryStateStore) (M : Memories) : Prop where
  keys : OrderedMap.keys M = s.records.keys
  dependsOn : ∀ id, M.dependenciesOf id = s.dependsOn id

variable {s s' : MemoryStateStore}

theorem Mirrors.shape (h : Mirrors s M) (hframed : Framed s) : M.Shape where
  closed := by
    intro id d hd
    rw [h.dependsOn, mem_dependsOn hframed] at hd
    rw [h.keys]
    exact known_of_dep hframed hd
  acyclic := by
    simp only [h.dependsOn]
    exact acyclic_dependsOn hframed

theorem Mirrors.congr {M' : Memories} (h : Mirrors s M) (hsame : Memories.SameFacts M M') :
    Mirrors s M' where
  keys := hsame.keys.trans h.keys
  dependsOn := fun id => (hsame.dependenciesOf id).trans (h.dependsOn id)

theorem Mirrors.updated (h : Mirrors s M) (hupdated : Updated s s') : Mirrors s' M where
  keys := h.keys.trans hupdated.keys.symm
  dependsOn := fun id => (h.dependsOn id).trans (hupdated.dependsOn id).symm

/-- The event changes the direct status of a memory, and nothing else. -/
def EventBody.ChangesStatus : EventBody → Prop
  | .memoryStaled _ _ => True
  | .memoryInvalidated _ _ => True
  | .memoryRevalidated _ _ _ _ => True
  | .memoryReplaced _ _ => True
  | _ => False

theorem withMemory_known {id : String} (hid : id ∈ OrderedMap.keys M) {next : Replayed → Replayed}
    (hnext : ∀ m, (next m).dependsOn = m.dependsOn) :
    ∃ M', M.withMemory id next = .ok M' ∧ OrderedMap.keys M' = OrderedMap.keys M ∧
      ∀ id', M'.dependenciesOf id' = M.dependenciesOf id' := by
  obtain ⟨m, hget⟩ := (M.mem_keys).mp hid
  refine ⟨OrderedMap.set M id (next m), ?_, OrderedMap.keys_set_of_mem M hid, fun id' => ?_⟩
  · unfold Memories.withMemory
    rw [hget]
  · by_cases hne : id' = id
    · subst hne
      rw [Memories.dependenciesOf_eq (OrderedMap.get?_set_self _ _ _), Memories.dependenciesOf_eq hget, hnext]
    · unfold Memories.dependenciesOf
      rw [OrderedMap.get?_set_of_ne _ _ hne]

theorem applyEvent_known {body : EventBody} {id : String} (hbody : body.ChangesStatus)
    (hmemory : body.memoryId? = some id) (hid : id ∈ OrderedMap.keys M) :
    ∃ M', M.applyEvent body = .ok M' ∧ OrderedMap.keys M' = OrderedMap.keys M ∧
      ∀ id', M'.dependenciesOf id' = M.dependenciesOf id' := by
  cases body with
  | memoryRegistered | memoryDerived | sourceChanged => exact hbody.elim
  | memoryStaled memoryId reason =>
    cases hmemory
    refine withMemory_known hid fun m => ?_
    split_ifs <;> rfl
  | memoryInvalidated memoryId reason =>
    cases hmemory
    exact withMemory_known hid fun _ => rfl
  | memoryRevalidated memoryId result status version =>
    cases hmemory
    refine withMemory_known hid fun m => ?_
    split_ifs <;> rfl
  | memoryReplaced memoryId replacementMemoryId =>
    cases hmemory
    exact withMemory_known hid fun _ => rfl

theorem mem_keys_iff_recorded (hr : ReplayOf journal r) (hmirrors : Mirrors s r.memories) (id : String) :
    id ∈ s.records.keys ↔ ∃ direct, journal.recorded id = some direct := by
  rw [← hr.recorded, ← hmirrors.keys]
  constructor
  · intro hid
    obtain ⟨m, hget⟩ := (r.memories.mem_keys).mp hid
    exact ⟨m.direct, by rw [hget]; rfl⟩
  · rintro ⟨direct, hdirect⟩
    obtain ⟨m, hget, -⟩ := Option.map_eq_some_iff.mp hdirect
    exact r.memories.mem_keys_of_get? hget

namespace ReferenceProtocol

variable {p p' : ReferenceProtocol}

theorem recorded_eq (p : ReferenceProtocol) (id : String) : p.recorded id = p.journal.recorded id := rfl

theorem recordedBy_of_ne {id : String} {body : EventBody} (hmemory : body.memoryId? = some memoryId)
    (hid : id ≠ memoryId) (direct : Option MemoryStatus) :
    recordedBy id direct body = direct := by
  unfold recordedBy
  rw [if_neg]
  rw [hmemory]
  exact fun heq => hid (Option.some.inj heq).symm

/-- The journal can be replayed, and the replay has the memories of the store. -/
structure Recording (p : ReferenceProtocol) : Prop where
  sound : Sound p.states
  free : p.states.WithoutExpiry
  named : ∀ id ∈ p.states.records.keys, id ≠ ""
  unused : ∀ event ∈ p.journal.entries, ∀ kind memoryId n, p.sequence ≤ n →
    event.eventId ≠ generatedId kind memoryId n
  prepared : ∀ pending ∈ p.validations, ∀ item ∈ pending.prepared,
    isValidationResult item.result = true
  replay : ∃ r, ReplayOf p.journal r ∧ Mirrors p.states r.memories

theorem Recording.known (h : Recording p) (id : String) :
    id ∈ p.states.records.keys ↔ ∃ direct, p.recorded id = some direct := by
  obtain ⟨r, hr, hmirrors⟩ := h.replay
  exact mem_keys_iff_recorded hr hmirrors id

theorem Recording.withStates (h : Recording p) {states : MemoryStateStore} (hsound : Sound states)
    (hupdated : Updated p.states states) : Recording { p with states := states } where
  sound := hsound
  free := hupdated.withoutExpiry h.free
  named := by
    intro id hid
    exact h.named id ((hupdated.mem_keys id).mp hid)
  unused := h.unused
  prepared := h.prepared
  replay := by
    obtain ⟨r, hr, hmirrors⟩ := h.replay
    exact ⟨r, hr, hmirrors.updated hupdated⟩

def emitted (p : ReferenceProtocol) (states : MemoryStateStore) (event : PremiseEvent) :
    ReferenceProtocol :=
  { p with
      states := states
      sequence := p.sequence + 1
      journal := ⟨p.journal.entries ++ [event]⟩ }

theorem recorded_emitted (p : ReferenceProtocol) (states : MemoryStateStore) (event : PremiseEvent)
    (id : String) :
    (p.emitted states event).recorded id = recordedBy id (p.recorded id) event.body := by
  unfold recorded emitted
  rw [List.foldl_append]
  rfl

theorem Recording.new_id (h : Recording p) (kind memoryId : String) :
    generatedId kind memoryId p.sequence ∉ p.journal.entries.map PremiseEvent.eventId := by
  intro hmem
  obtain ⟨event, hevent, heq⟩ := List.mem_map.mp hmem
  exact h.unused event hevent kind memoryId p.sequence le_rfl heq

theorem Recording.emitNext (h : Recording p) {states : MemoryStateStore} {kind occurredAt : String}
    {body : EventBody} (hsound : Sound states) (hfree : states.WithoutExpiry)
    (hnamed : ∀ id ∈ states.records.keys, id ≠ "") {M : Memories} (hr : ReplayOf p.journal r)
    (happly : r.memories.applyEvent body = .ok M) (hmirrors : Mirrors states M)
    (hvalid : validatePremiseEvent ⟨generatedId kind memoryId p.sequence, occurredAt, body⟩ = []) :
    p.emitNext states kind memoryId occurredAt body =
      (p.emitted states ⟨generatedId kind memoryId p.sequence, occurredAt, body⟩, .ok ()) ∧
    Recording (p.emitted states ⟨generatedId kind memoryId p.sequence, occurredAt, body⟩) := by
  have hnew := h.new_id kind memoryId
  refine ⟨?_, hsound, hfree, hnamed, ?_, h.prepared, ?_⟩
  · unfold ReferenceProtocol.emitNext emit
    rw [append_ok hvalid hnew]
    rfl
  · intro event hevent kind' memoryId' n hn
    rcases List.mem_append.mp hevent with hevent | hevent
    · exact h.unused event hevent kind' memoryId' n (Nat.le_of_succ_le hn)
    · rw [List.mem_singleton.mp hevent]
      intro heq
      have hlt : p.sequence < n := hn
      exact absurd (generatedId_sequence heq) hlt.ne
  · obtain ⟨r', hr', hsame⟩ := hr.append hvalid hnew happly (hmirrors.shape hsound.framed)
    exact ⟨r', hr', hmirrors.congr hsame⟩

theorem Recording.refused (h : Recording p) : Recording { p with sequence := p.sequence + 1 } where
  sound := h.sound
  free := h.free
  named := h.named
  unused := fun event hevent kind memoryId n hn =>
    h.unused event hevent kind memoryId n (Nat.le_of_succ_le hn)
  prepared := h.prepared
  replay := h.replay

theorem emitNext_refused (p : ReferenceProtocol) (states : MemoryStateStore)
    (kind memoryId occurredAt : String) (body : EventBody)
    (hvalid : validatePremiseEvent ⟨generatedId kind memoryId p.sequence, occurredAt, body⟩ ≠ []) :
    ∃ err, p.emitNext states kind memoryId occurredAt body = ({ p with
          states := states
          sequence := p.sequence + 1 }, .error err) := by
  obtain ⟨err, heq⟩ := @append_refused p.journal _ hvalid
  refine ⟨err, ?_⟩
  unfold ReferenceProtocol.emitNext emit
  rw [heq]

/-! ## Transitions -/

def Emits (previousStatus nextStatus : MemoryStatus) (reason : String) : Prop :=
  ¬ (previousStatus = nextStatus ∧ reason ≠ "UNCHANGED")

/-- The journal accepts the event of a transition. -/
structure Acceptable (nextStatus : MemoryStatus) (occurredAt reason : String)
    (version : Option VersionReference) : Prop where
  date : isDateTime occurredAt = true
  reasoned : reason ≠ ""
  versioned : ∀ v, version = some v → isVersion v = true
  unknown : nextStatus = .unknown → reason ≠ "UNCHANGED"
  fresh : nextStatus = .fresh → reason = "UNCHANGED"

theorem transitionBody_memoryId (memoryId : String) (nextStatus : MemoryStatus) (reason : String)
    (version : Option VersionReference) :
    (transitionBody memoryId nextStatus reason version).2.memoryId? = some memoryId := by
  unfold transitionBody
  cases nextStatus with
  | invalid | stale => rfl
  | unknown | fresh => dsimp only; split_ifs <;> rfl

theorem transitionBody_changesStatus (memoryId : String) (nextStatus : MemoryStatus) (reason : String)
    (version : Option VersionReference) :
    (transitionBody memoryId nextStatus reason version).2.ChangesStatus := by
  unfold transitionBody
  cases nextStatus with
  | invalid | stale => trivial
  | unknown | fresh => dsimp only; split_ifs <;> trivial

theorem valid_transition {nextStatus : MemoryStatus} {occurredAt reason eventId : String}
    {version : Option VersionReference} (h : Acceptable nextStatus occurredAt reason version)
    (hevent : eventId ≠ "") (hmemory : memoryId ≠ "") :
    validatePremiseEvent ⟨eventId, occurredAt,
      (transitionBody memoryId nextStatus reason version).2⟩ = [] := by
  have hpayload : validatePayload (transitionBody memoryId nextStatus reason version).2 = [] := by
    have hreason := isNonEmptyString_iff.mpr h.reasoned
    have hunknown := h.unknown
    have hfresh := h.fresh
    unfold transitionBody
    cases nextStatus with
    | invalid | stale => simp [validatePayload, addIf, hreason]
    | unknown =>
      have hne := hunknown rfl
      simp [validatePayload, addIf, hne, statusForResult]
    | fresh =>
      have hversion : isVersion (version.getD ⟨"dependency", memoryId⟩) = true := by
        cases hv : version with
        | some v => exact h.versioned v hv
        | none =>
          unfold isVersion
          rw [Option.getD_none, isNonEmptyString_iff.mpr hmemory, Bool.and_true]
          show isNonEmptyString "dependency" = true
          exact isNonEmptyString_iff.mpr (by decide)
      simp [validatePayload, addIf, hfresh rfl, statusForResult, hversion]
  unfold validatePremiseEvent PremiseEvent.memoryId?
  simp [addIf, hpayload, isNonEmptyString_iff.mpr hevent, h.date, transitionBody_memoryId, isNonEmptyString_iff.mpr hmemory]

theorem recordedBy_transition {nextStatus d : MemoryStatus} {occurredAt reason eventId memoryId : String}
    {version : Option VersionReference}
    (hvalid : validatePremiseEvent ⟨eventId, occurredAt, (transitionBody memoryId nextStatus reason version).2⟩ = [])
    (hkept : d = .invalid → nextStatus = .invalid) :
    recordedBy memoryId (some d) (transitionBody memoryId nextStatus reason version).2
      = some nextStatus := by
  have hpayload : validatePayload (transitionBody memoryId nextStatus reason version).2 = [] := by
    unfold validatePremiseEvent at hvalid
    exact (List.append_eq_nil_iff.mp hvalid).2
  unfold recordedBy
  rw [if_pos (transitionBody_memoryId _ _ _ _)]
  unfold transitionBody at hpayload ⊢
  cases nextStatus with
  | invalid => rfl
  | stale =>
    have hd : d ≠ .invalid := fun hd => absurd (hkept hd) (by decide)
    simp [hd]
  | unknown =>
    have hd : d ≠ .invalid := fun hd => absurd (hkept hd) (by decide)
    split_ifs at hpayload ⊢ with hreason
    · simp [validatePayload, addIf, statusForResult] at hpayload
    · simp [hd, statusForResult]
  | fresh =>
    have hd : d ≠ .invalid := fun hd => absurd (hkept hd) (by decide)
    split_ifs at hpayload ⊢ with hreason
    · simp [hd, statusForResult]
    · simp [validatePayload, addIf, statusForResult] at hpayload

/-- What the emission of transitions to the statuses `f` does. -/
structure Transitions (f : String → MemoryStatus) (p p' : ReferenceProtocol) : Prop where
  recording : Recording p'
  states : p'.states = p.states
  validations : p'.validations = p.validations
  recorded : ∀ id, p'.recorded id = p.recorded id ∨ p'.recorded id = some (f id)

variable {f : String → MemoryStatus}

theorem appendTransition_spec (h : Recording p) {id : String} (hid : id ∈ p.states.records.keys)
    (hkept : p.recorded id = some .invalid → f id = .invalid) (previousStatus : MemoryStatus)
    (occurredAt reason : String) (version : Option VersionReference) :
    ∃ p' result, p.appendTransition id previousStatus (f id) occurredAt reason version = (p', result) ∧ Transitions f p p' ∧
      ((Emits previousStatus (f id) reason → Acceptable (f id) occurredAt reason version) →
        (∃ eventId, result = .ok eventId) ∧
        (Emits previousStatus (f id) reason → p'.recorded id = some (f id))) := by
  unfold appendTransition
  by_cases hemits : previousStatus = f id ∧ reason ≠ "UNCHANGED"
  · rw [if_pos hemits]
    refine ⟨p, _, rfl, ⟨h, rfl, rfl, fun _ => Or.inl rfl⟩, fun _ => ⟨⟨_, rfl⟩, fun hnot => ?_⟩⟩
    exact absurd hemits hnot
  rw [if_neg hemits]
  obtain ⟨kind, body, hbody⟩ : ∃ kind body, transitionBody id (f id) reason version = (kind, body) :=
    ⟨_, _, rfl⟩
  rw [hbody]
  dsimp only
  have hmemory := transitionBody_memoryId id (f id) reason version
  have hchanges := transitionBody_changesStatus id (f id) reason version
  by_cases hvalid : validatePremiseEvent ⟨generatedId kind id p.sequence, occurredAt, body⟩ = []
  · obtain ⟨r, hr, hmirrors⟩ := h.replay
    obtain ⟨direct, hdirect⟩ := (h.known id).mp hid
    rw [hbody] at hmemory hchanges
    obtain ⟨M, happly, hkeys, hdepends⟩ := applyEvent_known hchanges hmemory (M := r.memories) (by
      rw [hmirrors.keys]
      exact hid)
    obtain ⟨heq, hrecording⟩ := h.emitNext h.sound h.free h.named hr happly
      ⟨hkeys.trans hmirrors.keys, fun id' => (hdepends id').trans (hmirrors.dependsOn id')⟩ hvalid
    rw [heq]
    have hnext : (p.emitted p.states ⟨generatedId kind id p.sequence, occurredAt, body⟩).recorded id = some (f id) := by
      have hset := @recordedBy_transition (f id) direct occurredAt reason
        (generatedId kind id p.sequence) id version (by rw [hbody]; exact hvalid) (fun hd => hkept (by rw [hdirect, hd]))
      rw [hbody] at hset
      rw [recorded_emitted, hdirect]
      exact hset
    refine ⟨_, _, rfl, ⟨hrecording, rfl, rfl, fun id' => ?_⟩, fun _ => ⟨⟨_, rfl⟩, fun _ => hnext⟩⟩
    by_cases hne : id' = id
    · subst hne
      exact .inr hnext
    · rw [recorded_emitted, recordedBy_of_ne hmemory hne]
      exact .inl rfl
  · obtain ⟨err, heq⟩ := emitNext_refused p p.states kind id occurredAt body hvalid
    rw [heq]
    refine ⟨_, _, rfl, ⟨h.refused, rfl, rfl, fun _ => Or.inl rfl⟩, fun hacceptable => ?_⟩
    have hvalid' := valid_transition (hacceptable hemits) (generatedId_ne_empty kind id p.sequence) (h.named id hid)
    rw [hbody] at hvalid'
    exact absurd hvalid' hvalid

theorem appendTransitions_spec (h : Recording p) {changes : List StatusChange}
    (occurredAt reason : String) (version : String → Option VersionReference)
    (hchanges : ∀ c ∈ changes, c.state.memoryId ∈ p.states.records.keys ∧ c.state.status = f c.state.memoryId ∧
      (p.recorded c.state.memoryId = some .invalid → f c.state.memoryId = .invalid)) :
    ∃ p' result, appendTransitions occurredAt reason version p changes = (p', result) ∧ Transitions f p p' ∧
      ((∀ c ∈ changes, Emits c.previousStatus c.state.status reason →
          Acceptable c.state.status occurredAt reason (version c.state.memoryId)) →
        ∀ c ∈ changes, Emits c.previousStatus c.state.status reason →
          p'.recorded c.state.memoryId = some c.state.status) := by
  induction changes generalizing p with
  | nil => exact ⟨p, _, rfl, ⟨h, rfl, rfl, fun _ => Or.inl rfl⟩, fun _ _ hc => absurd hc List.not_mem_nil⟩
  | cons c changes ih =>
    obtain ⟨hid, hstatus, hkept⟩ := hchanges c List.mem_cons_self
    obtain ⟨p₁, result, heq, hfirst, haccepted⟩ := appendTransition_spec h hid hkept c.previousStatus
      occurredAt reason (version c.state.memoryId)
    unfold appendTransitions
    rw [hstatus, heq]
    cases result with
    | error err =>
      refine ⟨p₁, _, rfl, hfirst, fun hall => ?_⟩
      rw [← hstatus] at haccepted
      obtain ⟨⟨eventId, hok⟩, -⟩ := haccepted (hall c List.mem_cons_self)
      cases hok
    | ok eventId =>
      have hrest : ∀ c' ∈ changes, c'.state.memoryId ∈ p₁.states.records.keys ∧ c'.state.status = f c'.state.memoryId ∧
          (p₁.recorded c'.state.memoryId = some .invalid → f c'.state.memoryId = .invalid) := by
        intro c' hc'
        obtain ⟨hid', hstatus', hkept'⟩ := hchanges c' (List.mem_cons_of_mem _ hc')
        rw [hfirst.states]
        refine ⟨hid', hstatus', fun hinvalid => ?_⟩
        rcases hfirst.recorded c'.state.memoryId with hsame | hnext
        · exact hkept' (hsame.symm.trans hinvalid)
        · exact Option.some.inj (hnext.symm.trans hinvalid)
      obtain ⟨p', result, hall, hthen, hrecorded⟩ := ih hfirst.recording hrest
      have htransitions : Transitions f p p' := by
        refine ⟨hthen.recording, hthen.states.trans hfirst.states, hthen.validations.trans hfirst.validations, fun id => ?_⟩
        rcases hthen.recorded id with hsame | hnext
        · rw [hsame]
          exact hfirst.recorded id
        · exact .inr hnext
      dsimp only
      rw [hall]
      suffices hends : _ from by
        cases result with
        | error | ok => exact ⟨p', _, rfl, htransitions, hends⟩
      intro hacceptable c' hc' hemits
      rcases List.mem_cons.mp hc' with rfl | hmem
      · rw [hstatus] at hemits ⊢
        have hnext := (haccepted (fun _ => by
          rw [← hstatus]
          refine hacceptable c' hc' ?_
          rw [hstatus]
          exact hemits)).2 hemits
        rcases hthen.recorded c'.state.memoryId with hsame | hset
        · rw [hsame, hnext]
        · exact hset
      · exact hrecorded (fun c'' hc'' => hacceptable c'' (List.mem_cons_of_mem _ hc'')) c' hmem hemits

end ReferenceProtocol

/-!
# Proofs: the replay reproduces the statuses

The recorded direct status of a memory is between its own status and its cached one. The calls that record
what they do keep it so, and the statuses of the replay are then those of the protocol.
-/

variable {s : MemoryStateStore}

namespace ReferenceProtocol

variable {p p' p₁ : ReferenceProtocol} {clock : Option Int}

/-- The recorded statuses are between the own and the cached ones. -/
structure Faithful (p : ReferenceProtocol) : Prop where
  recording : Recording p
  bounds : ∀ id direct, p.recorded id = some direct →
    p.states.ownStatus id ≤ direct ∧ direct ≤ p.states.dependencyStatus id

def directOf (M : Memories) (id : String) : MemoryStatus :=
  ((M.get? id).map Replayed.direct).getD .unknown

theorem aggregate_replayed {M : Memories} (hframed : Framed s) (hmirrors : Mirrors s M)
    (hsettled : ∀ id, M.Settled id) {id : String} (hid : id ∈ s.records.keys) :
    Aggregate (directOf M) s.dependsOn id (M.statusOf id) := by
  refine @aggregate_of_consistent _ _ _ _ _ (· ∈ s.records.keys) _ (acyclic_dependsOn hframed) ?_ ?_ _ hid
  · intro n _ d hd
    rw [mem_dependsOn hframed] at hd
    exact known_of_dep hframed hd
  · intro n hn
    rw [← hmirrors.keys] at hn
    obtain ⟨m, hget⟩ := (M.mem_keys).mp hn
    rw [← hmirrors.dependsOn, Memories.dependenciesOf_eq hget]
    unfold directOf
    rw [hget]
    unfold Memories.statusOf
    rw [hget]
    exact hsettled n m hget

theorem Faithful.statusOf_eq (h : Faithful p) {r : Replay} (hr : ReplayOf p.journal r)
    (hmirrors : Mirrors p.states r.memories) {id : String} (hid : id ∈ p.states.records.keys) :
    r.memories.statusOf id = p.states.dependencyStatus id := by
  have hsound := h.recording.sound
  have hreplayed : ∀ {n}, n ∈ p.states.records.keys →
      Aggregate (directOf r.memories) p.states.dependsOn n (r.memories.statusOf n) :=
    fun hn => aggregate_replayed hsound.framed hmirrors hr.settled hn
  have hknown : ∀ c, ReflTransGen (fun n d => d ∈ p.states.dependsOn n) id c → c ∈ p.states.records.keys := by
    intro c hreach
    induction hreach with
    | refl => exact hid
    | tail _ hd _ => exact known_of_dep hsound.framed ((mem_dependsOn hsound.framed _ _).mp hd)
  have hdirect : ∀ c, c ∈ p.states.records.keys → p.states.ownStatus c ≤ directOf r.memories c ∧
        directOf r.memories c ≤ p.states.dependencyStatus c := by
    intro c hc
    obtain ⟨direct, hrecorded⟩ := (h.recording.known c).mp hc
    have hbounds := h.bounds c direct hrecorded
    rw [recorded_eq, ← hr.recorded] at hrecorded
    unfold directOf
    rw [hrecorded]
    exact hbounds
  have hcached := aggregate_cached hsound hid
  refine le_antisymm ((hreplayed hid).le_iff.mpr (fun c hreach => ?_))
    (hcached.le_iff.mpr (fun c hreach => ?_))
  · refine (hdirect c (hknown c hreach)).2.trans ?_
    exact (aggregate_cached hsound (hknown c hreach)).le_iff.mpr (fun e he => hcached.le_iff.mp le_rfl e (hreach.trans he))
  · exact (hdirect c (hknown c hreach)).1.trans ((hreplayed hid).le_iff.mp le_rfl c hreach)

theorem Faithful.reproduces (h : Faithful p) : p.Reproduces := by
  obtain ⟨r, hr, hmirrors⟩ := h.recording.replay
  refine ⟨r.snapshot p.journal.entries.length, ?_, ?_⟩
  · unfold replayEvents
    rw [hr.folded]
    rfl
  · unfold Replay.snapshot live
    rw [hmirrors.keys]
    refine List.filterMap_congr fun id hid => ?_
    have hkey := mem_sortStrings.mp hid
    obtain ⟨record, hrecord⟩ := p.states.records.mem_keys.mp hkey
    obtain ⟨m, hget⟩ := (r.memories.mem_keys).mp (by
      rw [hmirrors.keys]
      exact hkey)
    have hstatus := h.statusOf_eq hr hmirrors hkey
    have hdepends := hmirrors.dependsOn id
    rw [dependencyStatus_eq hrecord] at hstatus
    rw [Memories.dependenciesOf_eq hget] at hdepends
    unfold Memories.statusOf at hstatus
    unfold MemoryStateStore.dependsOn at hdepends
    rw [hget] at hstatus
    rw [hrecord] at hdepends
    rw [hget, stateOf_eq_some.mpr ⟨record, hrecord, rfl⟩, Option.map_some, Option.map_some]
    congr 2

theorem ownStatus_congr {s' : MemoryStateStore} {id : String} (h : s'.records.get? id = s.records.get? id) :
    s'.ownStatus id = s.ownStatus id := by
  unfold ownStatus
  rw [h]

/-- A mark is recorded: all its events are acceptable, and the roots that leave none have recorded it;
    or it changes no status and raises none. -/
structure Marks (p : ReferenceProtocol) (s' : MemoryStateStore) (roots : List String)
    (status : MemoryStatus) (changes emitted : List StatusChange) (occurredAt reason : String)
    (version : String → Option VersionReference) : Prop where
  marking : Marking p.states s' roots status changes
  sub : ∀ c ∈ emitted, c ∈ changes
  changed : ∀ c ∈ changes, c.previousStatus ≠ c.state.status → c ∈ emitted
  unchanged : reason = "UNCHANGED" → ∀ c ∈ changes, c.state.memoryId ∈ roots → c ∈ emitted
  recorded : ((∀ c ∈ emitted, Emits c.previousStatus c.state.status reason →
        Acceptable c.state.status occurredAt reason (version c.state.memoryId)) ∧
      (reason ≠ "UNCHANGED" → p.RecordsMark roots status)) ∨
    ((∀ id ∈ p.states.records.keys, s'.dependencyStatus id = p.states.dependencyStatus id) ∧
      ∀ id, s'.ownStatus id ≤ p.states.ownStatus id)

theorem aggregate_marked {s' : MemoryStateStore} {roots : List String} {status : MemoryStatus}
    {changes : List StatusChange} (h : Marking s s' roots status changes) {id : String} (hid : id ∈ s.records.keys) :
    Aggregate (markedOwn s roots status) s.dependsOn id (s'.dependencyStatus id) := by
  have haggregate := aggregate_cached h.sound ((h.mem_keys id).mpr hid)
  rw [h.own, show s'.dependsOn = s.dependsOn from funext h.updated.dependsOn] at haggregate
  exact haggregate

variable {s' : MemoryStateStore} {roots : List String} {status : MemoryStatus}
  {changes emitted : List StatusChange} {occurredAt reason : String}
  {version : String → Option VersionReference}

theorem Faithful.marked (h : Faithful p) (hp1 : Recording p₁) (hsame : p₁.states = p.states)
    (hrecorded : ∀ id, p₁.recorded id = p.recorded id)
    (hmarks : Marks p s' roots status changes emitted occurredAt reason version) :
    ∃ p' result, appendTransitions occurredAt reason version { p₁ with states := s' } emitted
        = (p', result) ∧ Faithful p' ∧ p'.validations = p₁.validations := by
  have hmarking := hmarks.marking
  have hsound := h.recording.sound
  have hrecording : Recording { p₁ with states := s' } :=
    hp1.withStates hmarking.sound (by rw [hsame]; exact hmarking.updated)
  obtain ⟨p', result, heq, htransitions, hall⟩ := @appendTransitions_spec _ s'.dependencyStatus
    hrecording emitted occurredAt reason version (by
      intro c hc
      obtain ⟨hkey, -, hstatus, -⟩ := hmarking.change c (hmarks.sub c hc)
      refine ⟨(hmarking.mem_keys _).mpr hkey, hstatus, fun hinvalid => ?_⟩
      have hbound := (h.bounds _ _ ((hrecorded _).symm.trans hinvalid)).2
      have htop : ∀ t : MemoryStatus, .invalid ≤ t → t = .invalid := by
        intro t
        cases t <;> decide
      exact hmarking.invalid hsound hkey (htop _ hbound))
  refine ⟨p', result, heq, ⟨htransitions.recording, fun id direct hdirect => ?_⟩, htransitions.validations⟩
  have hstates : p'.states = s' := htransitions.states
  have hid : id ∈ p.states.records.keys := by
    rw [← hmarking.mem_keys, ← hstates]
    exact (htransitions.recording.known id).mpr ⟨direct, hdirect⟩
  rw [hstates]
  have hown := own_le_status hmarking.sound ((hmarking.mem_keys id).mpr hid)
  -- The status is recorded, or the recorded status stays.
  by_cases hnext : p'.recorded id = some (s'.dependencyStatus id)
  · obtain rfl := Option.some.inj (hnext.symm.trans hdirect)
    exact ⟨hown, le_rfl⟩
  have hstay : p.recorded id = some direct := by
    rw [← hrecorded, ← hdirect]
    exact ((htransitions.recorded id).resolve_right hnext).symm
  obtain ⟨hlower, hupper⟩ := h.bounds id direct hstay
  rcases hmarks.recorded with ⟨hacceptable, hroots⟩ | ⟨hstatus, hraised⟩
  · have hemitted : ∀ c ∈ emitted, c.state.memoryId = id →
        ¬ Emits c.previousStatus c.state.status reason := by
      rintro c hc rfl hemits
      have hset := hall hacceptable c hc hemits
      obtain ⟨-, -, hstatus, -⟩ := hmarking.change c (hmarks.sub c hc)
      rw [hstatus] at hset
      exact hnext hset
    have hsame' : s'.dependencyStatus id = p.states.dependencyStatus id := by
      by_contra hne
      obtain ⟨c, hc, rfl⟩ := hmarking.changed id hne
      obtain ⟨-, hprevious, hstatus, -⟩ := hmarking.change c hc
      have hdiffers : c.previousStatus ≠ c.state.status := by
        rw [hprevious, hstatus]
        exact Ne.symm hne
      exact hemitted c (hmarks.changed c hc hdiffers) rfl fun hboth => hdiffers hboth.1
    refine ⟨?_, hsame' ▸ hupper⟩
    rw [hmarking.own]
    by_cases hroot : id ∈ roots
    · have hreason : reason ≠ "UNCHANGED" := by
        intro hreason
        obtain ⟨c, hc, rfl⟩ := hmarking.root id hroot
        exact hemitted c (hmarks.unchanged hreason c hc hroot) rfl fun hboth => hboth.2 hreason
      obtain ⟨record, hget⟩ := p.states.records.mem_keys.mp hid
      refine hroots hreason id hroot _ direct (stateOf_eq_some.mpr ⟨record, hget, rfl⟩) ?_ hstay
      have haggregate := aggregate_marked hmarking hid
      rw [hsame', dependencyStatus_eq hget] at haggregate
      exact haggregate
    · unfold markedOwn
      rw [if_neg (fun hboth => hroot hboth.1)]
      exact hlower
  · rw [hstatus id hid]
    exact ⟨(hraised id).trans hlower, hupper⟩

end ReferenceProtocol

end Premise.Reference
