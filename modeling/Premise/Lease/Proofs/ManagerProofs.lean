import Premise.Lease.Proofs.StoreProofs

/-!
# Proofs: the lease manager acts on cells, and the promises of leases
-/

namespace Premise.Lease

open Collections Control Js

/-- Two calls of the same operation by the same claim with the same token. -/
inductive SameCall {α β : Type} : LeaseCall α → LeaseCall β → Prop
  | acquire (claim : LeaseClaim) (term : α) (term' : β) :
      SameCall (.acquire claim term) (.acquire claim term')
  | renew (claim : LeaseClaim) (fencingToken : Int) (term : α) (term' : β) :
      SameCall (.renew claim fencingToken term) (.renew claim fencingToken term')
  | release (claim : LeaseClaim) (fencingToken : Int) :
      SameCall (.release claim fencingToken) (.release claim fencingToken)
  | validate (claim : LeaseClaim) (fencingToken : Int) :
      SameCall (.validate claim fencingToken) (.validate claim fencingToken)

theorem SameCall.scope_eq {α β : Type} {call : LeaseCall α} {call' : LeaseCall β}
    (h : SameCall call call') : call.scope = call'.scope := by
  cases h <;> rfl

theorem CellStep.recall {α β : Type} {now : Int} {call : LeaseCall α} {call' : LeaseCall β}
    {cell cell' : LeaseCell} {verdict : Verdict} (h : CellStep now call cell cell' verdict)
    (hsame : SameCall call call') : CellStep now call' cell cell' verdict := by
  have hid : call'.identity = call.identity := by cases hsame <;> rfl
  cases h with
  | refuse => exact CellStep.refuse _
  | expire hlease hexpired => exact CellStep.expire hlease hexpired
  | grant hfree hcall htoken => exact CellStep.grant hfree (hid.trans hcall) htoken
  | confirm hlease hlive hcall hshape =>
    obtain ⟨claim, token, rfl⟩ := hshape
    cases hsame
    exact CellStep.confirm hlease hlive hcall ⟨_, _, rfl⟩
  | renew hlease hlive hcall hrenewed hlater hshape =>
    obtain ⟨claim, token, term, rfl⟩ := hshape
    cases hsame
    exact CellStep.renew hlease hlive hcall hrenewed hlater ⟨_, _, _, rfl⟩
  | release hlease hlive hcall hshape =>
    obtain ⟨claim, token, rfl⟩ := hshape
    cases hsame
    exact CellStep.release hlease hlive hcall ⟨_, _, rfl⟩

namespace ValidationLeaseManager

variable {m m' m₁ : ValidationLeaseManager} {now : Int}

def validCall : LeaseCall (Option Int) → Bool
  | .acquire claim durationMs => validClaim claim && validDurationInput durationMs
  | .renew claim fencingToken durationMs =>
    validClaim claim && validToken fencingToken && validDurationInput durationMs
  | .release claim fencingToken => validClaim claim && validToken fencingToken
  | .validate claim fencingToken => validClaim claim && validToken fencingToken

def storeCall (m : ValidationLeaseManager) (now : Int) :
    LeaseCall (Option Int) → Option (LeaseCall Int)
  | .acquire claim durationMs => (m.expiresAt now durationMs).map (.acquire claim)
  | .renew claim fencingToken durationMs =>
    (m.expiresAt now durationMs).map (.renew claim fencingToken)
  | .release claim fencingToken => some (.release claim fencingToken)
  | .validate claim fencingToken => some (.validate claim fencingToken)

theorem perform_eq (m : ValidationLeaseManager) (clock : Option Int)
    (call : LeaseCall (Option Int)) : m.perform clock call =
      if !validCall call then (m, rejected .invalidInput)
      else
        match m.readClock clock with
        | .error reason => (m, rejected reason)
        | .ok (m, now) =>
          match m.storeCall now call with
          | none => (m, rejected .invalidInput)
          | some c => ({ m with store := (m.store.perform now c).1 },
              decisionFor call.claim now call (m.store.perform now c).2) := by
  cases call with
  | acquire claim durationMs =>
    unfold perform acquire
    show (if _ then _ else _) = if !(validClaim claim && validDurationInput durationMs) then _ else _
    split_ifs
    · rfl
    · cases m.readClock clock with
      | error reason => rfl
      | ok p =>
        obtain ⟨m₁, now⟩ := p
        dsimp only [storeCall]
        cases m₁.expiresAt now durationMs <;> rfl
  | renew claim fencingToken durationMs =>
    unfold perform renew
    show (if _ then _ else _) = if !(validClaim claim && validToken fencingToken
      && validDurationInput durationMs) then _ else _
    split_ifs
    · rfl
    · cases m.readClock clock with
      | error reason => rfl
      | ok p =>
        obtain ⟨m₁, now⟩ := p
        dsimp only [storeCall]
        cases m₁.expiresAt now durationMs <;> rfl
  | release claim fencingToken =>
    unfold perform release
    show (if _ then _ else _) = if !(validClaim claim && validToken fencingToken) then _ else _
    split_ifs
    · rfl
    · cases m.readClock clock <;> rfl
  | validate claim fencingToken =>
    unfold perform validate
    show (if _ then _ else _) = if !(validClaim claim && validToken fencingToken) then _ else _
    split_ifs
    · rfl
    · cases m.readClock clock <;> rfl

theorem storeCall_same {call : LeaseCall (Option Int)} {c : LeaseCall Int}
    (h : m.storeCall now call = some c) : SameCall c call := by
  cases call with
  | acquire claim durationMs =>
    obtain ⟨expiresAt, -, rfl⟩ := Option.map_eq_some_iff.mp h
    exact SameCall.acquire claim expiresAt durationMs
  | renew claim fencingToken durationMs =>
    obtain ⟨expiresAt, -, rfl⟩ := Option.map_eq_some_iff.mp h
    exact SameCall.renew claim fencingToken expiresAt durationMs
  | release claim fencingToken =>
    cases h
    exact SameCall.release claim fencingToken
  | validate claim fencingToken =>
    cases h
    exact SameCall.validate claim fencingToken

theorem decisionFor_verdict (claim : LeaseClaim) (now : Int) (call : LeaseCall (Option Int))
    (result : Except JsError StoreResult) :
    decisionVerdict (decisionFor claim now call result) = storeVerdict result ∨
      decisionVerdict (decisionFor claim now call result) = .refused := by
  cases result with
  | error err => exact .inl rfl
  | ok result =>
    cases result with
    | rejected reason => exact .inl rfl
    | released =>
      cases call with
      | release _ _ => exact .inl rfl
      | _ => exact .inr rfl
    | acquired lease =>
      cases call with
      | acquire _ _ =>
        unfold decisionFor
        dsimp only
        split_ifs
        · exact .inr rfl
        · exact .inl rfl
      | _ => exact .inr rfl
    | held lease =>
      cases call with
      | acquire _ _ =>
        unfold decisionFor
        dsimp only
        split_ifs <;> exact .inr rfl
      | _ => exact .inr rfl
    | updated lease =>
      cases call with
      | renew _ _ _ =>
        unfold decisionFor
        dsimp only
        split_ifs
        · exact .inr rfl
        · exact .inl rfl
      | _ => exact .inr rfl
    | valid lease =>
      cases call with
      | validate _ _ =>
        unfold decisionFor
        dsimp only
        split_ifs
        · exact .inr rfl
        · exact .inl rfl
      | _ => exact .inr rfl

theorem readClock_ok {clock : Option Int} (h : m.readClock clock = .ok (m₁, now)) :
    clock = some now ∧ m₁ = { m with lastObservedAt := some now } ∧
      ∀ t ∈ m.lastObservedAt, t ≤ now := by
  unfold readClock at h
  cases clock with
  | none => cases h
  | some value =>
    dsimp only at h
    split_ifs at h with hvalid hlast
    cases h
    refine ⟨rfl, rfl, fun t ht => ?_⟩
    rw [Option.mem_def] at ht
    simpa [ht] using hlast

theorem readClock_of_le (hvalid : validTime now = true) (hle : ∀ t ∈ m.lastObservedAt, t ≤ now) :
    m.readClock (some now) = .ok ({ m with lastObservedAt := some now }, now) := by
  unfold readClock
  dsimp only
  rw [if_neg (by simp [hvalid]), if_neg ?_]
  cases hlast : m.lastObservedAt with
  | none => simp
  | some t =>
    have := hle t hlast
    simpa using this

def ClockAhead (m : ValidationLeaseManager) : Prop :=
  ∀ t ∈ m.store.lastObservedAt, ∃ t' ∈ m.lastObservedAt, t ≤ t'

theorem perform_store_observed (store : InMemoryValidationLeaseStore) (now : Int)
    (call : LeaseCall Int) (hle : ∀ t ∈ store.lastObservedAt, t ≤ now) :
    ∀ t ∈ (store.perform now call).1.lastObservedAt, t ≤ now := by
  intro t ht
  rcases InMemoryValidationLeaseStore.storeService_acts.reads store now call now rfl t ht with h | h
  · exact le_of_eq h
  · exact hle t h

theorem ClockAhead.perform (h : m.ClockAhead) (clock : Option Int)
    (call : LeaseCall (Option Int)) : (m.perform clock call).1.ClockAhead := by
  rw [perform_eq]
  split_ifs
  · exact h
  · cases hclock : m.readClock clock with
    | error reason => exact h
    | ok p =>
      obtain ⟨m₁, now⟩ := p
      obtain ⟨-, rfl, hle⟩ := readClock_ok hclock
      have hstore : ∀ t ∈ m.store.lastObservedAt, t ≤ now := by
        intro t ht
        obtain ⟨t', ht', hlt⟩ := h t ht
        exact le_trans hlt (hle t' ht')
      dsimp only
      cases hcall : storeCall { m with lastObservedAt := some now } now call with
      | none => exact fun t ht => ⟨now, rfl, hstore t ht⟩
      | some c => exact fun t ht => ⟨now, rfl, perform_store_observed m.store now c hstore t ht⟩

theorem expiresAt_congr (h : m.defaultLeaseDurationMs.ms = m'.defaultLeaseDurationMs.ms) (now : Int)
    (call : LeaseCall (Option Int)) : m.storeCall now call = m'.storeCall now call := by
  cases call with
  | acquire claim durationMs =>
    unfold storeCall expiresAt duration
    rw [h]
  | renew claim fencingToken durationMs =>
    unfold storeCall expiresAt duration
    rw [h]
  | release | validate => rfl

theorem managerService_acts : managerService.ActsOn (fun m => m.store.cell)
    (fun m => m.defaultLeaseDurationMs.ms) ClockAhead where
  init := by
    rintro m ⟨leaseDurationMs, h⟩
    unfold create at h
    split_ifs at h
    cases h
    exact ⟨nofun, fun _ => rfl⟩
  stored := fun _ _ => rfl
  kept := by
    intro m clock call
    simp only [managerService, perform_eq]
    split_ifs
    · rfl
    · cases hclock : m.readClock clock with
      | error reason => rfl
      | ok p =>
        obtain ⟨m₁, now⟩ := p
        obtain ⟨-, rfl, -⟩ := readClock_ok hclock
        dsimp only
        cases storeCall { m with lastObservedAt := some now } now call <;> rfl
  stays := fun m clock call h => h.perform clock call
  step := by
    intro m clock call
    unfold LeaseService.answer
    simp only [managerService, perform_eq]
    split_ifs
    · exact .inl ⟨rfl, rfl, rfl⟩
    · cases hclock : m.readClock clock with
      | error reason => exact .inl ⟨rfl, rfl, rfl⟩
      | ok p =>
        obtain ⟨m₁, now⟩ := p
        obtain ⟨-, rfl, hle⟩ := readClock_ok hclock
        refine .inr ⟨now, ?_⟩
        dsimp only
        cases hcall : storeCall { m with lastObservedAt := some now } now call with
        | none => exact ⟨.refused, rfl, hle, fun _ _ => rfl, CellStep.refuse _, Or.inl rfl⟩
        | some c =>
          have hsame := storeCall_same hcall
          have hverdict := decisionFor_verdict call.claim now call (m.store.perform now c).2
          rcases InMemoryValidationLeaseStore.perform_acts m.store now c with
            ⟨hcell, -, hrefused⟩ | ⟨verdict, -, -, hother, hstep, hanswer⟩
          · refine ⟨.refused, rfl, hle, fun scope _ => congrFun hcell scope, ?_, ?_⟩
            · have hown : (m.store.perform now c).1.cell call.scope = m.store.cell call.scope :=
                congrFun hcell call.scope
              rw [hown]
              exact CellStep.refuse _
            · rcases hverdict with hverdict | hverdict
              · exact .inl (hverdict.trans hrefused)
              · exact .inr hverdict
          · rw [hsame.scope_eq] at hother hstep
            refine ⟨verdict, rfl, hle, hother, hstep.recall hsame, ?_⟩
            rcases hverdict with hverdict | hverdict
            · rcases hanswer with hanswer | hanswer
              · exact .inl (hverdict.trans hanswer)
              · exact .inr (hverdict.trans hanswer)
            · exact .inr hverdict
  congr := by
    intro m m' clock call now hahead hahead' htime hvalid hle hle' hconfig hcell
    obtain rfl : clock = some now := htime
    have hstore : ∀ (w : ValidationLeaseManager), w.ClockAhead → (∀ t ∈ w.lastObservedAt, t ≤ now) →
        ∀ t ∈ w.store.lastObservedAt, t ≤ now := by
      intro w hw hlew t ht
      obtain ⟨t', ht', hlt⟩ := hw t ht
      exact le_trans hlt (hlew t' ht')
    simp only [managerService, perform_eq, readClock_of_le hvalid hle, readClock_of_le hvalid hle']
    split_ifs
    · exact ⟨rfl, hcell⟩
    · have hterm : storeCall { m with lastObservedAt := some now } now call
          = storeCall { m' with lastObservedAt := some now } now call :=
        expiresAt_congr hconfig now call
      rw [hterm]
      cases hcall : storeCall { m' with lastObservedAt := some now } now call with
      | none => exact ⟨rfl, hcell⟩
      | some c =>
        have hsame := storeCall_same hcall
        have hcell' : m.store.cell c.scope = m'.store.cell c.scope := by
          rw [hsame.scope_eq]
          exact hcell
        obtain ⟨hanswer, hafter⟩ := InMemoryValidationLeaseStore.storeService_acts.congr m.store
          m'.store now c now trivial trivial rfl hvalid (hstore m hahead hle)
          (hstore m' hahead' hle') rfl hcell'
        rw [hsame.scope_eq] at hafter
        exact ⟨congrArg (decisionFor call.claim now call) hanswer, hafter⟩
  reads := by
    intro m clock call now htime t ht
    obtain rfl : clock = some now := htime
    simp only [managerService, perform_eq] at ht
    split_ifs at ht
    · exact .inr ht
    · cases hclock : m.readClock (some now) with
      | error reason =>
        rw [hclock] at ht
        exact .inr ht
      | ok p =>
        obtain ⟨m₁, now'⟩ := p
        rw [hclock] at ht
        obtain ⟨hnow, rfl, -⟩ := readClock_ok hclock
        cases hnow
        dsimp only at ht
        cases hcall : storeCall { m with lastObservedAt := some now } now call with
        | none =>
          rw [hcall] at ht
          exact .inl (Option.some.inj ht).symm
        | some c =>
          rw [hcall] at ht
          exact .inl (Option.some.inj ht).symm

end ValidationLeaseManager

end Premise.Lease
