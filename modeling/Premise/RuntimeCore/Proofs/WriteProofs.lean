import Premise.Control.System
import Premise.RuntimeCore.Mutations

/-!
# Methods that write nothing

Everything about indexes and the frontier leaves the store and the audited events as they are; reading the clock,
checking an envelope and dropping receipts also leave the indexes alone.
-/

namespace Premise.RuntimeCore.PremiseRuntime

open Collections Control FrontierEngine Js Protocol
  ValidationScope
open Control.Command

def quietly : Guarantee RuntimeState := .same (fun w => (w.store, w.journal.events))

variable {P K : Type} {host : RuntimeHost} {o : RuntimeOptions P K}

theorem quiet_update {f : RuntimeState → RuntimeState} (hstore : ∀ w, (f w).store = w.store)
    (hjournal : ∀ w, (f w).journal = w.journal) : (Command.update f : RuntimeCommand Unit).Meets quietly := by
  intro w
  show ((f w).store, (f w).journal.events) = (w.store, w.journal.events)
  rw [hstore, hjournal]

theorem store_of_quiet {α : Type} {c : RuntimeCommand α} (hc : c.Meets quietly) {w w' : RuntimeState}
    {r : Except RuntimeError α} (hrun : c w = (w', r)) : w'.store = w.store := by
  have hstore := (Prod.mk.inj (hc w)).1
  rw [hrun] at hstore
  exact hstore

section Indexes

theorem indexed_store (record : RuntimeRecord) (w : RuntimeState) : (indexed o record w).store = w.store := by
  unfold indexed
  split_ifs <;> rfl

theorem indexed_journal (record : RuntimeRecord) (w : RuntimeState) : (indexed o record w).journal = w.journal := by
  unfold indexed
  split_ifs <;> rfl

theorem update_deindexed_quiet (record : RuntimeRecord) :
    (Command.update (deindexed o record) : RuntimeCommand Unit).Meets quietly := by
  refine quiet_update (fun w => ?_) (fun w => ?_)
  · unfold deindexed
    split_ifs <;> rfl
  · unfold deindexed
    split_ifs <;> rfl

theorem update_indexed_quiet (record : RuntimeRecord) :
    (Command.update (indexed o record) : RuntimeCommand Unit).Meets quietly :=
  quiet_update (indexed_store record) (indexed_journal record)

theorem syncStoreRevision_quiet : syncStoreRevision.Meets quietly :=
  quiet_update (fun _ => rfl) (fun _ => rfl)

theorem tryFrontier_quiet {α : Type} (c : Command IncrementalFrontierEngine JsError α) :
    (tryFrontier c).Meets quietly := quiet_update (fun _ => rfl) (fun _ => rfl)

theorem frontierRecord_quiet (record : RuntimeRecord) : (frontierRecord record).Meets quietly :=
  tryFrontier_quiet _

end Indexes

theorem finish_quiet (record : RuntimeRecord) : (do
    frontierRecord record
    syncStoreRevision : RuntimeCommand Unit).Meets quietly :=
  (frontierRecord_quiet record).bind fun _ => syncStoreRevision_quiet

/-! ## What leaves the records and the indexes alone -/

def indexes (w : RuntimeState) :=
  (w.sourceMemoryIds, w.dependentsByDependency, w.indexedStoreRevision, w.frontierEngine)

def steadily : Guarantee RuntimeState := .same (fun w => (w.store, indexes w))

section Checks

theorem trustedEnvelope_steady (input : MemoryEnvelopeV2) (idempotentReplay : Bool) :
    (trustedEnvelope o input idempotentReplay).Meets steadily := by
  unfold trustedEnvelope
  cases o.signatureVerification with
  | none => exact Meets.lift _
  | some options =>
    have hverify : ((parseAndVerifyMemoryEnvelopeV2 options input).mapError RuntimeError.signature).Meets
        (.same (fun _ => ())) := fun _ => rfl
    exact Meets.ite (Meets.lift _) (hverify.zoom fun _ _ _ => rfl)

theorem emit_steady (type : V2EventType) (memoryId : Option String) (payload : List (String × Json))
    (idempotencyKey : String) (requestPayload : Json) :
    (emit host o type memoryId payload idempotencyKey false requestPayload).Meets steadily := by
  refine (Meets.read _).bind fun existing => ?_
  cases existing with
  | some existing => exact (Meets.rejectIf _ _).bind fun _ => Meets.pure _
  | none => exact (show (randomUUID host).Meets steadily from fun _ => rfl).bind fun _ =>
      (show (now host).Meets steadily from fun _ => rfl).bind fun _ => Meets.pure _

theorem invalidateRecordReceipts_steady (record : RuntimeRecord) :
    (invalidateRecordReceipts host o record).Meets steadily := by
  refine Meets.ite (Meets.pure ()) (Meets.forEach fun evidence _ => Meets.bind (fun w => ?_) fun validation => ?_)
  · unfold validationScope
    split <;> rfl
  · unfold invalidateReceipt
    split
    · exact fun _ => rfl
    · exact Meets.pure ()

theorem require_steady (memoryId : String) : (require o memoryId).Meets steadily := by
  refine (Meets.read _).bind fun found => ?_
  cases found with
  | some record => exact Meets.pure _
  | none => exact Meets.throw _

theorem dependencies_steady (dependencies : List String) :
    (Command.forEach (assertDependency o) dependencies).Meets steadily :=
  Meets.forEach fun _ _ => (Meets.read _).bind fun _ => Meets.rejectIf _ _

end Checks

/-!
# Envelopes that are trusted

An envelope that is parsed, or verified, is the one that came in.
-/

variable {P K : Type} {host : RuntimeHost} {o : RuntimeOptions P K}

variable {input envelope : MemoryEnvelopeV2} {w : RuntimeState}

section Results

theorem of_parseMemoryEnvelopeV2_ok (h : parseMemoryEnvelopeV2 input = .ok envelope) :
    envelope = input ∧ validateMemoryEnvelopeV2 input = [] := by
  unfold parseMemoryEnvelopeV2 at h
  split_ifs at h with hvalid
  exact ⟨(Except.ok.inj h).symm, hvalid⟩

theorem of_parseAndVerify_ok {options : V2SignatureVerificationOptions P K} {store : MemoryV2SignatureReplayStore}
    (h : (parseAndVerifyMemoryEnvelopeV2 options input store).2 = .ok envelope) : envelope = input := by
  unfold parseAndVerifyMemoryEnvelopeV2 at h
  obtain ⟨-, -, hclaim⟩ := of_bind_snd_ok h
  obtain ⟨claimed, -, hcheck⟩ := of_bind_snd_ok hclaim
  obtain ⟨-, -, hreturn⟩ := of_bind_snd_ok hcheck
  exact (Except.ok.inj hreturn).symm

theorem of_trustedEnvelope_ok {idempotentReplay : Bool}
    (h : (trustedEnvelope o input idempotentReplay w).2 = .ok envelope) :
    envelope = input := by
  unfold trustedEnvelope at h
  cases hoptions : o.signatureVerification with
  | none =>
    rw [hoptions] at h
    exact (of_parseMemoryEnvelopeV2_ok (of_lift_snd_ok h)).1
  | some options =>
    rw [hoptions] at h
    split_ifs at h
    · exact of_parseAndVerify_ok (of_mapError_snd_ok (of_lift_snd_ok h))
    · exact of_parseAndVerify_ok (of_mapError_snd_ok (of_zoom_snd_ok h))

theorem of_get_ok {principalTenant memoryId : String} {w' : RuntimeState} {found : Option RuntimeRecord}
    (h : get principalTenant memoryId w = (w', .ok found)) :
    w' = w ∧ found = (w.store.get memoryId).filter (fun record => decide (record.envelope.tenantId = principalTenant)) :=
  ⟨(Prod.mk.inj h).1.symm, (Except.ok.inj (Prod.mk.inj h).2).symm⟩

theorem of_get_some {principalTenant memoryId : String} {w' : RuntimeState} {record : RuntimeRecord}
    (h : get principalTenant memoryId w = (w', .ok (some record))) :
    w' = w ∧ w.store.get memoryId = some record ∧ record.envelope.tenantId = principalTenant := by
  obtain ⟨hw, hfound⟩ := of_get_ok h
  obtain ⟨hstored, htenant⟩ := Option.filter_eq_some_iff.mp hfound.symm
  exact ⟨hw, hstored, of_decide_eq_true htenant⟩

theorem of_require_ok {memoryId : String} {w' : RuntimeState} {record : RuntimeRecord}
    (h : require o memoryId w = (w', .ok record)) :
    w' = w ∧ w.store.get memoryId = some record ∧ record.envelope.tenantId = o.principalTenant := by
  obtain ⟨w₁, found, hget, h⟩ := Command.of_bind_ok h
  cases found with
  | none => cases h
  | some found =>
    obtain ⟨rfl, hrecord⟩ := Prod.mk.inj h
    cases hrecord
    exact of_get_some hget

end Results

/-!
# Calls that end with a write

A call over a store leaves the records and the indexes alone, and what is `known` holds when it returns; or it comes
in this way to a command that writes.
-/

variable {α β : Type} {s : InMemoryRuntimeStore} {known : Prop} {writes : RuntimeCommand α → Prop}

def Ends (s : InMemoryRuntimeStore) (known : Prop) (writes : RuntimeCommand α → Prop) (c : RuntimeCommand α) : Prop :=
  ∀ w, w.store = s → (steadily.holds w (c w).1 ∧ ∀ a, (c w).2 = .ok a → known) ∨
    ∃ w₁ c', steadily.holds w w₁ ∧ writes c' ∧ c w = c' w₁

namespace Ends

theorem steady {c : RuntimeCommand α} (hc : c.Meets steadily) (h : known) : Ends s known writes c :=
  fun w _ => .inl ⟨hc w, fun _ _ => h⟩

theorem write {c : RuntimeCommand α} (h : writes c) : Ends s known writes c :=
  fun w _ => .inr ⟨w, c, rfl, h, rfl⟩

theorem bind {c : RuntimeCommand β} {f : β → RuntimeCommand α} (hc : c.Meets steadily)
    (hf : ∀ w b, w.store = s → (c w).2 = .ok b → Ends s known writes (f b)) : Ends s known writes (c >>= f) := by
  intro w hw
  have hsame := hc w
  rcases Command.bind_cases c f w with ⟨e, -, hrun⟩ | ⟨b, hok, hrun⟩
  · rw [hrun]
    exact .inl ⟨hsame, nofun⟩
  · rw [hrun]
    rcases hf w b hw hok (c w).1 ((Prod.mk.inj hsame).1.trans hw) with ⟨hrest, hknown⟩ | ⟨w₁, c', hrest, hwrites, hend⟩
    · exact .inl ⟨hrest.trans hsame, hknown⟩
    · exact .inr ⟨w₁, c', hrest.trans hsame, hwrites, hend⟩

theorem read {f : β → RuntimeCommand α} (g : InMemoryRuntimeStore → β) (hf : Ends s known writes (f (g s))) :
    Ends s known writes (Command.read (fun w => g w.store) >>= f) := by
  rintro w rfl
  exact hf w rfl

theorem new {memoryId : String} {f : Unit → RuntimeCommand α}
    (hf : s.get memoryId = none → Ends s known writes (f ())) :
    Ends s known writes (assertNotRegistered memoryId >>= f) := by
  refine bind ((Meets.read _).bind fun _ => Meets.rejectIf _ _) fun w _ hw hchecked => hf ?_
  obtain ⟨present, hread, hrejected⟩ := of_bind_snd_ok hchecked
  cases hread
  subst hw
  simpa using of_rejectIf_snd_ok hrejected

end Ends

end Premise.RuntimeCore.PremiseRuntime
