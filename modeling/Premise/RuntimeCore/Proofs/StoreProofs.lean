import Premise.RuntimeCore.Store

/-!
# Writes of a record with an event

When a record and an event are written as one, and when the record stays although the event was refused.
-/

namespace Premise.RuntimeCore.InMemoryRuntimeStore

open Collections Control Js Protocol

def Fresh (s : InMemoryRuntimeStore) (event : V2Event) : Prop :=
  s.idempotency.get? event.idempotencyKey = none ∧ s.events.get? event.idempotencyKey = none

/-- The same event stands under the key of the event already. -/
def Known (s : InMemoryRuntimeStore) (event : V2Event) : Prop :=
  s.idempotency.get? event.idempotencyKey = some (eventIdempotencyRecord event) ∨
    (s.idempotency.get? event.idempotencyKey = none ∧ ∃ existing, s.events.get? event.idempotencyKey = some existing ∧
      existing.eventId = event.eventId ∧ existing.requestDigest = event.requestDigest)

/-- The event is well formed, and its key is free or stands for it. -/
def Accepts (s : InMemoryRuntimeStore) (event : V2Event) : Prop :=
  validateV2Event event.document = [] ∧ (s.Fresh event ∨ s.Known event)

/-- The record is written, and the event is there: it was added, or it was there already. -/
structure Written (s s' : InMemoryRuntimeStore) (record : RuntimeRecord) (event : V2Event) : Prop where
  records : s'.records = s.records.set record.envelope.memoryId record
  revision : s'.revision = s.revision + 1
  event : (s.Fresh event ∧ s'.events = (addEvent event s).events ∧ s'.idempotency = (addEvent event s).idempotency) ∨
    (s.Known event ∧ s'.events = s.events ∧ s'.idempotency = s.idempotency)

/-- Both writes are done, or the call throws or answers that it did nothing, and the store is as before. -/
def AllOrNothing {α : Type} (done : α → Prop) (s : InMemoryRuntimeStore) (record : RuntimeRecord) (event : V2Event)
    (outcome : InMemoryRuntimeStore × Except RuntimeError α) : Prop :=
  (∃ answer, outcome.2 = .ok answer ∧ done answer ∧ Written s outcome.1 record event) ∨
    ((∀ answer, outcome.2 = .ok answer → ¬ done answer) ∧ outcome.1 = s)

section Writes

variable {s : InMemoryRuntimeStore} {record : RuntimeRecord} {event : V2Event}

theorem put_valid (h : validateMemoryEnvelopeV2 record.envelope = []) : put record s = (setRecord record s, .ok ()) := by
  have hparse : parseMemoryEnvelopeV2 record.envelope = .ok record.envelope := if_pos h
  unfold put
  rw [Command.lift_bind_ok hparse]
  rfl

theorem put_invalid (h : validateMemoryEnvelopeV2 record.envelope ≠ []) : ∃ e, put record s = (s, .error e) := by
  have hparse : parseMemoryEnvelopeV2 record.envelope = .error (.invalid (validateMemoryEnvelopeV2 record.envelope)) :=
    if_neg h
  unfold put
  rw [Command.lift_bind_error hparse]
  exact ⟨_, rfl⟩

theorem appendEvent_accepted (h : s.Accepts event) : (appendEvent event s).2 = .ok () ∧
    ((s.Fresh event ∧ (appendEvent event s).1 = addEvent event s) ∨
      (s.Known event ∧ (appendEvent event s).1 = s)) := by
  obtain ⟨hvalid, hkey⟩ := h
  have hparse : event.parse = .ok event := if_pos hvalid
  unfold appendEvent
  rw [Command.lift_bind_ok hparse, Command.read_bind]
  rcases hkey with ⟨hmetadata, hevent⟩ | hknown
  · rw [hmetadata]
    dsimp only
    rw [Command.read_bind, hevent]
    exact ⟨rfl, .inl ⟨⟨hmetadata, hevent⟩, rfl⟩⟩
  · rcases hknown with hmetadata | ⟨hmetadata, existing, hevent, heventId, hdigest⟩
    · rw [hmetadata]
      dsimp only
      rw [Command.rejectIf_neg (by simp [sameEventIdentity])]
      exact ⟨rfl, .inr ⟨.inl hmetadata, rfl⟩⟩
    · rw [hmetadata]
      dsimp only
      rw [Command.read_bind, hevent]
      dsimp only
      rw [Command.rejectIf_neg (by simp [heventId, hdigest])]
      exact ⟨rfl, .inr ⟨.inr ⟨hmetadata, existing, hevent, heventId, hdigest⟩, rfl⟩⟩

theorem appendEvent_refused (h : ¬ s.Accepts event) : ∃ e, appendEvent event s = (s, .error e) := by
  by_cases hvalid : validateV2Event event.document = []
  · have hparse : event.parse = .ok event := if_pos hvalid
    have hkey : ¬ s.Fresh event ∧ ¬ s.Known event := not_or.mp (fun hkey => h ⟨hvalid, hkey⟩)
    unfold appendEvent
    rw [Command.lift_bind_ok hparse, Command.read_bind]
    cases hmetadata : s.idempotency.get? event.idempotencyKey with
    | some existing =>
      have hdiffers : sameEventIdentity existing (eventIdempotencyRecord event) = false := by
        apply decide_eq_false
        rintro rfl
        exact hkey.2 (.inl hmetadata)
      dsimp only
      rw [Command.rejectIf_pos hdiffers]
      exact ⟨_, rfl⟩
    | none =>
      dsimp only
      rw [Command.read_bind]
      cases hevent : s.events.get? event.idempotencyKey with
      | none => exact absurd ⟨hmetadata, hevent⟩ hkey.1
      | some existing =>
        have hdiffers : existing.eventId ≠ event.eventId ∨ existing.requestDigest ≠ event.requestDigest := by
          by_contra hsame
          push Not at hsame
          exact hkey.2 (.inr ⟨hmetadata, existing, hevent, hsame.1, hsame.2⟩)
        dsimp only
        rw [Command.rejectIf_pos hdiffers]
        exact ⟨_, rfl⟩
  · have hparse : event.parse = .error (.invalid (validateV2Event event.document)) := if_neg hvalid
    unfold appendEvent
    rw [Command.lift_bind_error hparse]
    exact ⟨_, rfl⟩

theorem putAndAppend_valid (h : validateMemoryEnvelopeV2 record.envelope = []) :
    (s.Accepts event ∧ (putAndAppend record event s).2 = .ok () ∧ Written s (putAndAppend record event s).1 record event) ∨
    (¬ s.Accepts event ∧ ∃ e, putAndAppend record event s = (setRecord record s, .error e)) := by
  unfold putAndAppend
  rw [Command.bind_run_ok (put_valid h)]
  by_cases haccepts : s.Accepts event
  · have hset : (setRecord record s).Accepts event := haccepts
    obtain ⟨hok, ⟨hfresh, hrun⟩ | ⟨hknown, hrun⟩⟩ := appendEvent_accepted hset
    · refine .inl ⟨haccepts, hok, ?_⟩
      rw [hrun]
      exact ⟨rfl, rfl, .inl ⟨hfresh, rfl, rfl⟩⟩
    · refine .inl ⟨haccepts, hok, ?_⟩
      rw [hrun]
      exact ⟨rfl, rfl, .inr ⟨hknown, rfl, rfl⟩⟩
  · have hset : ¬ (setRecord record s).Accepts event := haccepts
    exact .inr ⟨haccepts, appendEvent_refused hset⟩

theorem putAndAppend_invalid (h : validateMemoryEnvelopeV2 record.envelope ≠ []) :
    ∃ e, putAndAppend record event s = (s, .error e) := by
  obtain ⟨e, hput⟩ : ∃ e, put record s = (s, .error e) := put_invalid h
  refine ⟨e, ?_⟩
  unfold putAndAppend
  rw [Command.bind_run_error hput]

theorem setRecord_ne (record : RuntimeRecord) (s : InMemoryRuntimeStore) : setRecord record s ≠ s := by
  intro h
  exact absurd (congrArg revision h) (Nat.succ_ne_self s.revision)

end Writes

section Atomicity

variable (s : InMemoryRuntimeStore) (expected record : RuntimeRecord) (event : V2Event)

theorem putAndAppend_iff : AllOrNothing (fun _ => True) s record event (putAndAppend record event s) ↔
    (validateMemoryEnvelopeV2 record.envelope ≠ [] ∨ s.Accepts event) := by
  by_cases hvalid : validateMemoryEnvelopeV2 record.envelope = []
  · rcases @putAndAppend_valid s record event hvalid with ⟨haccepts, hok, hwritten⟩ | ⟨hrefused, e, hrun⟩
    · exact iff_of_true (.inl ⟨(), hok, trivial, hwritten⟩) (.inr haccepts)
    · refine iff_of_false ?_ fun h => h.elim (fun hinvalid => hinvalid hvalid) hrefused
      rw [hrun]
      rintro (⟨_, hok, -⟩ | ⟨-, hsame⟩)
      · cases hok
      · exact setRecord_ne record s hsame
  · obtain ⟨e, hrun⟩ := @putAndAppend_invalid s record event hvalid
    refine iff_of_true (.inr ?_) (.inl hvalid)
    rw [hrun]
    exact ⟨nofun, rfl⟩

/-- A conditional write does what the write does while the record is the expected one. -/
theorem putAndAppendIfUnchanged_run : putAndAppendIfUnchanged expected record event s =
    if s.unchanged expected = true then ((putAndAppend record event s).1, (putAndAppend record event s).2.map (fun _ => true))
    else (s, .ok false) := by
  unfold putAndAppendIfUnchanged
  rw [Command.read_bind]
  split_ifs
  · rcases hrun : putAndAppend record event s with ⟨s', e | u⟩
    · rw [Command.bind_run_error hrun]
      rfl
    · rw [Command.bind_run_ok hrun]
      rfl
  · rfl

theorem putAndAppendIfUnchanged_iff :
    AllOrNothing (fun done => done = true) s record event (putAndAppendIfUnchanged expected record event s) ↔
      (s.unchanged expected = false ∨ validateMemoryEnvelopeV2 record.envelope ≠ [] ∨ s.Accepts event) := by
  rw [putAndAppendIfUnchanged_run, ← putAndAppend_iff]
  cases hcurrent : s.unchanged expected with
  | false =>
    refine iff_of_true (.inr ⟨?_, rfl⟩) (.inl rfl)
    rintro answer hanswer rfl
    cases hanswer
  | true =>
    rw [if_pos rfl]
    unfold AllOrNothing
    cases (putAndAppend record event s).2 with
    | error | ok => simp [Except.map]

end Atomicity

def plainRecord : RuntimeRecord where
  envelope := {
    tenantId := "tenant"
    memoryId := "memory"
    evidence := []
    confidence := { score := none, method := "manual" }
    conflicts := []
    temporal := { asOf := "1970-01-01T00:00:00Z" }
    validity := { status := .fresh, checkedAt := "1970-01-01T00:00:00Z", policy := .manual }
    dependsOn := ["source"]
    signatures := [] }
  content := .string "text"

def eventWithoutId : V2Event where
  tenantId := "tenant"
  eventId := ""
  operationId := "operation"
  idempotencyKey := "key"
  requestDigest := "sha256:0"
  type := .memoryRegistered
  occurredAt := "1970-01-01T00:00:00Z"
  memoryId := some "memory"
  payload := []

end Premise.RuntimeCore.InMemoryRuntimeStore
