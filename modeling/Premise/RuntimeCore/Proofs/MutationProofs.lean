import Premise.Js.KeyOrder
import Premise.RuntimeCore.Proofs.SessionProofs
import Premise.RuntimeCore.Proofs.StoreProofs

/-!
# Proofs: mutations

A mutation that returns leaves its event under its key. From then on the mutations under that key write nothing, and
only the same one returns.
-/

namespace Premise.RuntimeCore

open Collections Control Js Protocol
open Control.Command

variable {key memoryId : String} {α : Type} {w w' : RuntimeState} {u : Unit} {type : V2EventType}
    {call : MutationCall}

namespace InMemoryRuntimeStore

/-- The events that are known stay known. -/
def keeps : Guarantee InMemoryRuntimeStore where
  holds s s' := ∀ key event, s.getEvent key = some event → s'.getEvent key = some event
  refl _ _ _ h := h
  trans _ _ _ h h' key event hevent := h' key event (h key event hevent)

section Events

variable {s s' : InMemoryRuntimeStore} {record : RuntimeRecord} {event : V2Event}

theorem getEvent_eq_none : s.getEvent key = none ↔ s.idempotency.get? key = none ∧ s.events.get? key = none := by
  unfold getEvent
  cases s.events.get? key with
  | none | some => simp

theorem getEvent_addEvent (event : V2Event) (s : InMemoryRuntimeStore) (key : String) :
    (addEvent event s).getEvent key = if key = event.idempotencyKey then some event else s.getEvent key := by
  unfold getEvent addEvent
  rw [OrderedMap.get?_set, OrderedMap.get?_set]
  split_ifs
  · rfl
  · rfl

theorem put_keeps (record : RuntimeRecord) : (put record).Meets keeps :=
  (Meets.lift _).bind fun _ => Meets.update fun _ _ _ h => h

theorem appendEvent_keeps (event : V2Event) : (appendEvent event).Meets keeps := by
  intro s
  by_cases haccepts : s.Accepts event
  · rcases (appendEvent_accepted haccepts).2 with ⟨hfresh, hrun⟩ | ⟨-, hrun⟩
    · rw [hrun]
      intro key known hknown
      rw [getEvent_addEvent]
      split_ifs with hkey
      · rw [hkey, getEvent_eq_none.mpr hfresh] at hknown
        cases hknown
      · exact hknown
    · rw [hrun]
      exact keeps.refl s
  · obtain ⟨e, hrun⟩ := appendEvent_refused haccepts
    rw [hrun]
    exact keeps.refl s

section Calls

variable {G : Guarantee InMemoryRuntimeStore}

theorem putAndAppend_meets (hput : ∀ record, (put record).Meets G) (happend : ∀ event, (appendEvent event).Meets G)
    (record : RuntimeRecord) (event : V2Event) : (putAndAppend record event).Meets G :=
  (hput record).bind fun _ => happend event

theorem StoreCall.holds (hput : ∀ record, (InMemoryRuntimeStore.put record).Meets G)
    (happend : ∀ event, (InMemoryRuntimeStore.appendEvent event).Meets G) (call : StoreCall)
    (s : InMemoryRuntimeStore) : G.holds s (call.run s) := by
  cases call with
  | put record => exact hput record s
  | appendEvent event => exact happend event s
  | putAndAppend record event => exact putAndAppend_meets hput happend record event s
  | putAndAppendIfUnchanged expected record event =>
    have hcall : (InMemoryRuntimeStore.putAndAppendIfUnchanged expected record event).Meets G :=
      (Meets.read _).bind fun _ =>
        Meets.ite ((putAndAppend_meets hput happend record event).bind fun _ => Meets.pure _) (Meets.pure _)
    exact hcall s

end Calls

theorem putAndAppend_keeps (record : RuntimeRecord) (event : V2Event) : (putAndAppend record event).Meets keeps :=
  putAndAppend_meets put_keeps appendEvent_keeps record event

theorem StoreCall.keeps (call : StoreCall) (s : InMemoryRuntimeStore) :
    InMemoryRuntimeStore.keeps.holds s (call.run s) := StoreCall.holds put_keeps appendEvent_keeps call s

theorem Written.get (h : Written s s' record event) : s'.get record.envelope.memoryId = some record := by
  unfold InMemoryRuntimeStore.get
  rw [h.records, OrderedMap.get?_set_self]

theorem Written.getEvent (h : Written s s' record event) (hnew : s.getEvent event.idempotencyKey = none) :
    s'.getEvent event.idempotencyKey = some event := by
  obtain ⟨hmetadata, hevents⟩ := getEvent_eq_none.mp hnew
  rcases h.event with ⟨-, hadded, hidempotency⟩ | ⟨hmetadata' | ⟨-, existing, hexisting, -⟩, -, -⟩
  · have hsame : s'.getEvent event.idempotencyKey = (addEvent event s).getEvent event.idempotencyKey := by
      unfold InMemoryRuntimeStore.getEvent
      rw [hadded, hidempotency]
    rw [hsame, getEvent_addEvent, if_pos rfl]
  · rw [hmetadata] at hmetadata'
    cases hmetadata'
  · rw [hevents] at hexisting
    cases hexisting

end Events

end InMemoryRuntimeStore

variable {record : RuntimeRecord} {s s' : InMemoryRuntimeStore}

namespace PremiseRuntime

open InMemoryRuntimeStore

variable {P K : Type} {host : RuntimeHost} {o : RuntimeOptions P K}

theorem onStore_run (c : StoreCommand α) (w : RuntimeState) :
    onStore c w = ({ w with store := (c w.store).1 }, (c w.store).2) := rfl

theorem auditEvent_store (event : V2Event) (w : RuntimeState) : (auditEvent host o event w).1.store = w.store := by
  unfold auditEvent
  split_ifs <;> rfl

theorem of_persistRecordAndEvent_ok {event : V2Event}
    (h : persistRecordAndEvent host o record event w = (w', .ok u)) : Written w.store w'.store record event := by
  unfold persistRecordAndEvent at h
  obtain ⟨w₁, u1, hwritten, haudited⟩ := Command.of_bind_ok h
  rw [onStore_run] at hwritten
  obtain ⟨hstore, hok⟩ := Prod.mk.inj hwritten
  have hw1 := congrArg RuntimeState.store hstore
  dsimp only at hw1
  have haudit : w'.store = w₁.store := by
    have hrun : (auditEvent host o event w₁).1.store = w₁.store := auditEvent_store event w₁
    rw [haudited] at hrun
    exact hrun
  rw [haudit, ← hw1]
  by_cases hvalid : validateMemoryEnvelopeV2 record.envelope = []
  · rcases @putAndAppend_valid w.store record event hvalid with ⟨-, -, hwritten⟩ | ⟨-, e, hfailed⟩
    · exact hwritten
    · rw [hfailed] at hok
      cases hok
  · obtain ⟨e, hfailed⟩ := @putAndAppend_invalid w.store record event hvalid
    rw [hfailed] at hok
    cases hok

/-! ## Mutations that return -/

/-- The event with the digest is under the key: it was, and nothing is written, or it is written with the record. -/
def Recorded (s s' : InMemoryRuntimeStore) (key digest : String) (record : RuntimeRecord) : Prop :=
  ∃ event, event.requestDigest = digest ∧ ((s.getEvent key = some event ∧ s' = s) ∨
    (s.getEvent key = none ∧ event.idempotencyKey = key ∧ Written s s' record event))

theorem Recorded.event {digest : String} (h : Recorded s s' key digest record) :
    ∃ event, s'.getEvent key = some event ∧ event.requestDigest = digest := by
  obtain ⟨event, hdigest, ⟨hknown, rfl⟩ | ⟨hnew, rfl, hwritten⟩⟩ := h
  · exact ⟨event, hknown, hdigest⟩
  · exact ⟨event, hwritten.getEvent hnew, hdigest⟩

theorem Recorded.get {digest : String} (h : Recorded s s' key digest record) (hnew : s.getEvent key = none) :
    s'.get record.envelope.memoryId = some record := by
  obtain ⟨event, -, ⟨hknown, -⟩ | ⟨-, -, hwritten⟩⟩ := h
  · rw [hnew] at hknown
    cases hknown
  · exact hwritten.get

theorem Recorded.same {digest : String} (h : Recorded s s' key digest record) (hold : s.getEvent key ≠ none) : s' = s := by
  obtain ⟨event, -, ⟨-, hsame⟩ | ⟨hnew, -, -⟩⟩ := h
  · exact hsame
  · exact absurd hnew hold

theorem of_emit_ok {memoryId : Option String} {payload : List (String × Json)} {request : Json} {event : V2Event}
    (h : (emit host o type memoryId payload key false request w).2 = .ok event) :
    event.requestDigest = requestDigest host type memoryId request ∧
      (w.store.getEvent key = some event ∨ (w.store.getEvent key = none ∧ event.idempotencyKey = key)) := by
  unfold emit at h
  obtain ⟨existing, hread, h1⟩ := of_bind_snd_ok h
  have hexisting : w.store.getEvent key = existing := Except.ok.inj hread
  cases existing with
  | some existing =>
    obtain ⟨u, hchecked, h2⟩ := of_bind_snd_ok h1
    have hsame := of_rejectIf_snd_ok hchecked
    push Not at hsame
    cases h2
    exact ⟨hsame.2.2, .inl hexisting⟩
  | none =>
    obtain ⟨uuid, -, h2⟩ := of_bind_snd_ok h1
    obtain ⟨occurredAt, -, h3⟩ := of_bind_snd_ok h2
    rw [if_neg Bool.false_ne_true] at h3
    cases h3
    exact ⟨rfl, .inr ⟨hexisting, rfl⟩⟩

/-! ## What a mutation comes to -/

def replacementKey (memoryId : String) (input : MemoryEnvelopeV2) : String :=
  "replace:" ++ memoryId ++ ":" ++ input.contentDigest.getD "none"

/-- The key of a mutation: the event id, or what stands for it. -/
def eventKey (eventId : Option String) : MutationCall → String
  | .register record => eventId.getD ("register:" ++ record.envelope.memoryId)
  | .derive record => eventId.getD ("derive:" ++ record.envelope.memoryId)
  | .replace memoryId _ envelope => eventId.getD (replacementKey memoryId envelope)

/-- What a replacement has checked: the ids, the tenant, and that there is a record for the principal. -/
def Checked (o : RuntimeOptions P K) (s : InMemoryRuntimeStore) : MutationCall → Prop
  | .replace memoryId _ input => input.memoryId = memoryId ∧ input.tenantId = o.tenantId ∧
      ∃ current, s.get memoryId = some current ∧ current.envelope.tenantId = o.principalTenant
  | _ => True

/-- The indexes follow a record that has been written, maybe in the place of an old one. -/
def reindex (o : RuntimeOptions P K) (record : RuntimeRecord) : Option RuntimeRecord → RuntimeCommand Unit
  | none => do
    .update (indexed o record)
    frontierRecord record
    syncStoreRevision
  | some old => do
    .update (deindexed o old)
    .update (indexed o record)
    frontierRecord record
    syncStoreRevision

theorem reindex_quiet (old : Option RuntimeRecord) : (reindex o record old).Meets quietly := by
  cases old with
  | none => exact (update_indexed_quiet record).bind fun _ => finish_quiet record
  | some old => exact (update_deindexed_quiet old).bind fun _ => (update_indexed_quiet record).bind fun _ => finish_quiet record

/-- The event is under the key with the digest of the call. -/
def Known (host : RuntimeHost) (key : String) (call : MutationCall) (s : InMemoryRuntimeStore) (event : V2Event) : Prop :=
  s.getEvent key = some event ∧ event.requestDigest = host.digestFor call.document

/-- The key is new, and the record is written with an event under it. -/
def Writes (host : RuntimeHost) (o : RuntimeOptions P K) (key : String) (call : MutationCall)
    (s : InMemoryRuntimeStore) (c : RuntimeCommand Unit) : Prop :=
  s.getEvent key = none ∧ Checked o s call ∧ ∃ event : V2Event, event.idempotencyKey = key ∧
    event.requestDigest = host.digestFor call.document ∧
    c = persistRecordAndEvent host o call.record event >>= fun _ =>
      reindex o call.record (s.get call.record.envelope.memoryId)

def Performs (host : RuntimeHost) (o : RuntimeOptions P K) (key : String) (call : MutationCall)
    (s : InMemoryRuntimeStore) : RuntimeCommand Unit → Prop :=
  Ends s (Checked o s call ∧ ∃ event, Known host key call s event) (Writes host o key call s)

section Performs

variable {s : InMemoryRuntimeStore} {eventId : Option String}

theorem enroll_performs {payload : List (String × Json)} (hrecord : call.record = record) (hchecked : Checked o s call)
    (hdigest : requestDigest host type (some record.envelope.memoryId) (registrationRequest record)
      = host.digestFor call.document) :
    Performs host o key call s (enroll host o type payload key (s.getEvent key) record) := by
  refine .bind (emit_steady _ _ _ _ _) fun w event hw hemit => ?_
  obtain ⟨hdigested, hevent⟩ := of_emit_ok hemit
  rw [hdigest] at hdigested
  rw [hw] at hevent
  rcases hevent with hknown | ⟨hnew, hkey⟩
  · rw [hknown, Option.isSome_some, if_pos rfl]
    exact .steady ((Meets.read _).bind fun _ => Meets.rejectIf _ _) ⟨hchecked, event, hknown, hdigested⟩
  · rw [hnew, Option.isSome_none, if_neg Bool.false_ne_true]
    refine .new fun habsent => .write ⟨hnew, hchecked, event, hkey, hdigested, ?_⟩
    simp only [hrecord, habsent, reindex]

theorem parsed_performs {input : MemoryEnvelopeV2} {f : MemoryEnvelopeV2 → RuntimeCommand Unit}
    (hf : Performs host o key call s (f input)) :
    Performs host o key call s (Command.lift (parseMemoryEnvelopeV2 input) >>= f) := by
  refine .bind (Meets.lift _) fun w candidate _ hparsed => ?_
  rwa [(of_parseMemoryEnvelopeV2_ok (of_lift_snd_ok hparsed)).1]

theorem trusted_performs {input : MemoryEnvelopeV2} {replay : Bool} {f : MemoryEnvelopeV2 → RuntimeCommand Unit}
    (hf : Performs host o key call s (f input)) :
    Performs host o key call s (trustedEnvelope o input replay >>= f) := by
  refine .bind (trustedEnvelope_steady _ _) fun w envelope _ htrusted => ?_
  rwa [of_trustedEnvelope_ok htrusted]

theorem checked_performs {wrong : Prop} [Decidable wrong] {e : RuntimeError} {f : Unit → RuntimeCommand Unit}
    (hf : ¬ wrong → Performs host o key call s (f ())) :
    Performs host o key call s (Command.rejectIf wrong e >>= f) :=
  .bind (Meets.rejectIf _ _) fun _ _ _ h => hf (of_rejectIf_snd_ok h)

/-- A registration without an event id is first checked to be new. -/
theorem checkedNew_performs {c : RuntimeCommand Unit} (hc : Performs host o key call s c) : Performs host o key call s
    (if eventId.isNone then assertNotRegistered memoryId >>= fun _ => c else c) := by
  split_ifs
  · exact .new fun _ => hc
  · exact hc

theorem register_performs (record : RuntimeRecord) (eventId : Option String) (s : InMemoryRuntimeStore) :
    Performs host o (eventKey eventId (.register record)) (.register record) s (register host o record eventId) := by
  refine parsed_performs (.read (fun s => s.getEvent _) (trusted_performs (checked_performs fun _ => ?_)))
  exact checkedNew_performs (enroll_performs rfl trivial rfl)

theorem derive_performs (record : RuntimeRecord) (eventId : Option String) (s : InMemoryRuntimeStore) :
    Performs host o (eventKey eventId (.derive record)) (.derive record) s (derive host o record eventId) := by
  refine parsed_performs (.read (fun s => s.getEvent _) (trusted_performs (checked_performs fun _ => ?_)))
  refine checkedNew_performs (checked_performs fun _ => .bind (dependencies_steady _) fun _ _ _ _ => ?_)
  exact enroll_performs rfl trivial rfl

theorem replace_performs (memoryId : String) (content : Json) (input : MemoryEnvelopeV2) (eventId : Option String)
    (s : InMemoryRuntimeStore) : Performs host o (eventKey eventId (.replace memoryId content input))
      (.replace memoryId content input) s (replace host o memoryId content input eventId) := by
  refine .bind (require_steady memoryId) fun w current hw hrequired => ?_
  obtain ⟨-, hstored, hprincipal⟩ := of_require_ok (Prod.ext rfl hrequired)
  rw [hw] at hstored
  refine parsed_performs (.read (fun s => s.getEvent _) (trusted_performs ?_))
  refine checked_performs fun hid => checked_performs fun htenant => ?_
  refine .bind (invalidateRecordReceipts_steady current) fun _ _ _ _ => .bind (emit_steady _ _ _ _ _)
    fun w event hw hemit => ?_
  obtain ⟨hdigest, hevent⟩ := of_emit_ok hemit
  rw [hw] at hevent
  have hchecked : Checked o s (.replace memoryId content input) :=
    ⟨not_not.mp hid, not_not.mp htenant, current, hstored, hprincipal⟩
  rcases hevent with hknown | ⟨hnew, hkey⟩
  · rw [hknown, Option.isSome_some, if_pos rfl]
    exact .steady (Meets.pure _) ⟨hchecked, event, hknown, hdigest⟩
  · rw [hnew, Option.isSome_none, if_neg Bool.false_ne_true]
    refine .write ⟨hnew, hchecked, event, hkey, hdigest, ?_⟩
    simp only [MutationCall.record, hchecked.1, hstored, reindex]

theorem perform_performs (eventId : Option String) (call : MutationCall) (s : InMemoryRuntimeStore) :
    Performs host o (eventKey eventId call) call s (call.perform host o eventId) := by
  cases call with
  | register record => exact register_performs record eventId s
  | derive record => exact derive_performs record eventId s
  | replace memoryId content envelope => exact replace_performs memoryId content envelope eventId s

end Performs

theorem of_perform_returned {eventId : Option String} (h : call.perform host o eventId w = (w', .ok u)) :
    Checked o w.store call ∧
      Recorded w.store w'.store (eventKey eventId call) (host.digestFor call.document) call.record := by
  rcases perform_performs eventId call w.store w rfl with ⟨hsame, hok⟩ | ⟨w₁, _, hsame, ⟨hnew, hchecked, event, hkey, hdigest, rfl⟩, hrun⟩
  · rw [h] at hsame hok
    obtain ⟨hchecked, event, hknown, hdigest⟩ := hok u rfl
    exact ⟨hchecked, event, hdigest, .inl ⟨hknown, (Prod.mk.inj hsame).1⟩⟩
  · rw [h] at hrun
    obtain ⟨w₂, _, hpersisted, hrest⟩ := Command.of_bind_ok hrun.symm
    have hwritten := of_persistRecordAndEvent_ok hpersisted
    rw [(Prod.mk.inj hsame).1, ← store_of_quiet (reindex_quiet _) hrest] at hwritten
    exact ⟨hchecked, event, hdigest, .inr ⟨hnew, hkey, hwritten⟩⟩

theorem eventKey_some (key : String) (call : MutationCall) : eventKey (some key) call = key := by
  cases call <;> rfl

theorem of_perform_ok (h : call.perform host o (some key) w = (w', .ok u)) :
    Recorded w.store w'.store key (host.digestFor call.document) call.record := by
  have hrecorded := (of_perform_returned h).2
  rwa [eventKey_some] at hrecorded

theorem of_derive_ok (h : derive host o record (some key) w = (w', .ok u)) :
    Recorded w.store w'.store key (host.digestFor (MutationCall.derive record).document) record := by
  have hrun : (MutationCall.derive record).perform host o (some key) w = (w', .ok u) := h
  exact of_perform_ok hrun

theorem of_replace_ok {content : Json} {input : MemoryEnvelopeV2} {eventId : Option String}
    (h : replace host o memoryId content input eventId w = (w', .ok u)) :
    input.memoryId = memoryId ∧ input.tenantId = o.tenantId ∧
      (∃ current, w.store.get memoryId = some current ∧ current.envelope.tenantId = o.principalTenant) ∧
      Recorded w.store w'.store (eventId.getD (replacementKey memoryId input))
        (host.digestFor (MutationCall.replace memoryId content input).document) ⟨input, content⟩ := by
  have hrun : (MutationCall.replace memoryId content input).perform host o eventId w = (w', .ok u) := h
  obtain ⟨⟨hid, htenant, hcurrent⟩, hrecorded⟩ := of_perform_returned hrun
  exact ⟨hid, htenant, hcurrent, hrecorded⟩

/-! ## Mutations under a known key -/

def keepsEvents : Guarantee RuntimeState where
  holds w w' := keeps.holds w.store w'.store
  refl w := keeps.refl w.store
  trans _ _ _ h h' := keeps.trans _ _ _ h h'

/-- While the key is known nothing is written; and no event is forgotten. -/
def guarded (key : String) : Guarantee RuntimeState where
  holds w w' := (w.store.getEvent key ≠ none → w'.store = w.store) ∧ keeps.holds w.store w'.store
  refl w := ⟨fun _ => rfl, keeps.refl w.store⟩
  trans w w' w'' h h' := by
    refine ⟨fun hknown => ?_, keeps.trans _ _ _ h.2 h'.2⟩
    have hsame := h.1 hknown
    rw [h'.1 (by rw [hsame]; exact hknown), hsame]

theorem keepsEvents_of_store (h : w'.store = w.store) : keepsEvents.holds w w' := by
  show keeps.holds w.store w'.store
  rw [h]
  exact keeps.refl w.store

theorem persistRecordAndEvent_keeps (record : RuntimeRecord) (event : V2Event) :
    (persistRecordAndEvent host o record event).Meets keepsEvents :=
  Meets.bind ((putAndAppend_keeps record event).zoom fun _ _ h => h) fun _ w =>
    keepsEvents_of_store (auditEvent_store event w)

theorem written_keeps (record : RuntimeRecord) (event : V2Event) (old : Option RuntimeRecord) :
    (persistRecordAndEvent host o record event >>= fun _ => reindex o record old).Meets keepsEvents :=
  (persistRecordAndEvent_keeps record event).bind fun _ => (reindex_quiet old).mono fun _ _ h =>
    keepsEvents_of_store (Prod.mk.inj h).1

theorem guarded_of_new (hnew : w.store.getEvent key = none) (h : keepsEvents.holds w w') : (guarded key).holds w w' :=
  ⟨fun hold => absurd hnew hold, h⟩

theorem perform_guarded (eventId : Option String) (call : MutationCall) :
    (call.perform host o eventId).Meets (guarded (eventKey eventId call)) := by
  intro w
  rcases perform_performs eventId call w.store w rfl with ⟨hsame, -⟩ | ⟨w₁, _, hsame, ⟨hnew, -, event, -, -, rfl⟩, hrun⟩
  · have hstore := (Prod.mk.inj hsame).1
    exact ⟨fun _ => hstore, keepsEvents_of_store hstore⟩
  · rw [hrun]
    exact guarded_of_new hnew
      (keepsEvents.trans w w₁ _ (keepsEvents_of_store (Prod.mk.inj hsame).1) (written_keeps _ event _ w₁))

theorem Later.keepsEvents (h : Later host o w w') : keeps.holds w.store w'.store := by
  induction h with
  | refl => exact keeps.refl _
  | mutation h eventId call ih => exact keeps.trans _ _ _ ih (perform_guarded eventId call _).2
  | write h call hstore ih =>
    rw [hstore]
    exact keeps.trans _ _ _ ih (call.keeps _)

section Documents

theorem field_same {fields fields' : List (String × Json)} (key : String) {v w : Json}
    (h : (Json.object fields).Same (.object fields')) (hv : (key, v) ∈ fields)
    (hw : ∀ w', (key, w') ∈ fields' → w' = w) : v.Same w := by
  obtain ⟨w', hmem, hsame⟩ := Json.Same.mem h hv
  rw [← hw w' hmem]
  exact hsame

theorem text_injective {type' : V2EventType} (h : type.text = type'.text) : type = type' := by
  revert h
  cases type <;> cases type' <;> decide

theorem requestDocument_same {type' : V2EventType} {memoryId' : String} {request request' : Json}
    (h : (requestDocument type (some memoryId) request).Same (requestDocument type' (some memoryId') request')) :
    type = type' ∧ memoryId = memoryId' ∧ request.Same request' := by
  have htype : (Json.string type.text).Same (.string type'.text) :=
    field_same "type" h (by simp) (by simp)
  have hmemory : (Json.string memoryId).Same (.string memoryId') :=
    field_same "memoryId" h (by simp [Json.nullable]) (by simp [Json.nullable])
  exact ⟨text_injective (Json.string.inj htype), Json.string.inj hmemory,
    field_same "request" h (by simp) (by simp)⟩

theorem registrationRequest_same {record' : RuntimeRecord}
    (h : (registrationRequest record).Same (registrationRequest record')) :
    record.envelope.document.Same record'.envelope.document ∧ record.content.Same record'.content :=
  ⟨field_same "envelope" h (by simp) (by simp), field_same "content" h (by simp) (by simp)⟩

theorem replacementRequest_same {memoryId' : String} {record' : RuntimeRecord}
    (h : (replacementRequest memoryId record).Same (replacementRequest memoryId' record')) :
    record.envelope.document.Same record'.envelope.document ∧ record.content.Same record'.content :=
  ⟨field_same "envelope" h (by simp) (by simp), field_same "content" h (by simp) (by simp)⟩

theorem document_same {other : MutationCall} (h : call.document.Same other.document) :
    call.type = other.type ∧ call.memoryId = other.memoryId ∧
      call.record.envelope.document.Same other.record.envelope.document ∧
      call.record.content.Same other.record.content := by
  cases call with
  | register record =>
    cases other with
    | register record' => exact ⟨rfl, (requestDocument_same h).2.1, registrationRequest_same (requestDocument_same h).2.2⟩
    | derive | replace => exact nomatch (requestDocument_same h).1
  | derive record =>
    cases other with
    | register _ => exact nomatch (requestDocument_same h).1
    | derive record' => exact ⟨rfl, (requestDocument_same h).2.1, registrationRequest_same (requestDocument_same h).2.2⟩
    | replace _ _ _ => exact nomatch (requestDocument_same h).1
  | replace memoryId content envelope =>
    cases other with
    | register | derive => exact nomatch (requestDocument_same h).1
    | replace memoryId' content' envelope' =>
      exact ⟨rfl, (requestDocument_same h).2.1, replacementRequest_same (requestDocument_same h).2.2⟩

theorem not_differs {other : MutationCall} (h : call.document.Same other.document) : ¬ call.Differs other := by
  obtain ⟨htype, hmemory, henvelope, hcontent⟩ := document_same h
  rintro (hdiffers | hdiffers | hdiffers | hdiffers)
  · exact hdiffers htype
  · exact hdiffers hmemory
  · exact hdiffers henvelope
  · exact hdiffers hcontent

end Documents

theorem isDigest_told (p : Prop) [Decidable p] : isDigest (if p then "sha256:0" else "sha256:1") = true := by
  split_ifs <;> decide +kernel

/-- A host that tells the registration of the page from all others. -/
def tellingHost : RuntimeHost :=
  { stillHost with
    digestFor := fun document =>
      if document = (MutationCall.register pageRecord).document then "sha256:0" else "sha256:1"
    digest_valid := fun _ => isDigest_told _ }

def registerPage (content : Json) : MutationCall := .register { pageRecord with content }

end PremiseRuntime

end Premise.RuntimeCore
