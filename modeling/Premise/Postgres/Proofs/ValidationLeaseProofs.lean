import Premise.Lease.Proofs.StoreProofs
import Premise.Postgres.ValidationLease

/-!
# Proofs: two lease stores

Both stores serve a request as its row does. The in-memory store tracks the row of the table: it holds
the same lease, or none where the row has expired at the last observed instant.
-/

namespace Premise.Postgres

open Collections Control Js Lease

/-- The row after a request that is admitted, and what the caller is granted. -/
def served (row? : Option ValidationLease) (now : Int) :
    LeaseCall Int → Option (ValidationLease × Granted)
  | .acquire claim expiresAt =>
    let row : ValidationLease :=
      ⟨claim, (row?.map ValidationLease.fencingToken).getD 0 + 1, now, now, expiresAt⟩
    some (row, .lease row)
  | .renew _ _ expiresAt => row?.map (fun row =>
      ({ row with
          renewedAt := now
          expiresAt := expiresAt },
        .lease { row with
          renewedAt := now
          expiresAt := expiresAt }))
  | .release _ _ => row?.map (fun row => ({ row with expiresAt := now }, .release))
  | .validate _ _ => row?.map (fun row => (row, .lease row))

variable {row : ValidationLease} {claim : LeaseClaim} {fencingToken : Int}

theorem identityReason_eq_none_iff {now : Int} (hlive : now < row.expiresAt) :
    identityReason row claim fencingToken = none ↔ Matches row claim fencingToken now := by
  unfold identityReason Matches
  split_ifs with howner hleaseId htoken
  · exact ⟨nofun, fun h => absurd h.1 howner⟩
  · exact ⟨nofun, fun h => absurd h.2.1 hleaseId⟩
  · exact ⟨nofun, fun h => absurd h.2.2.1 htoken⟩
  · exact ⟨fun _ => ⟨not_not.mp howner, not_not.mp hleaseId, not_not.mp htoken, hlive⟩, fun _ => rfl⟩

theorem memory_identityReason_eq_none_iff {now : Int} (hlive : now < row.expiresAt) :
    Lease.identityReason row claim fencingToken = none ↔ Matches row claim fencingToken now := by
  unfold Lease.identityReason Matches
  split_ifs with htoken howner hleaseId
  · exact ⟨nofun, fun h => absurd h.2.2.1 htoken⟩
  · exact ⟨nofun, fun h => absurd h.1 howner⟩
  · exact ⟨nofun, fun h => absurd h.2.1 hleaseId⟩
  · exact ⟨fun _ => ⟨not_not.mp howner, not_not.mp hleaseId, not_not.mp htoken, hlive⟩, fun _ => rfl⟩

/-! ## The in-memory store -/

/-- The in-memory store holds what the row says, at an instant that is not before `last`. -/
structure Tracks (cell : LeaseCell) (row? : Option ValidationLease) (last : Option Int) : Prop where
  counter : cell.counter = (row?.map ValidationLease.fencingToken).getD 0
  lease : ∀ l, cell.lease = some l → row? = some l
  gone : cell.lease = none → ∀ row ∈ row?, ∃ t ∈ last, row.expiresAt ≤ t

variable {cell : LeaseCell} {row? : Option ValidationLease} {last : Option Int} {now : Int}

theorem Tracks.later (h : Tracks cell row? last) (hlast : ∀ t ∈ last, t ≤ now) :
    Tracks cell row? (some now) where
  counter := h.counter
  lease := h.lease
  gone := by
    intro hnone row hrow
    obtain ⟨t, ht, hexpired⟩ := h.gone hnone row hrow
    exact ⟨now, rfl, hexpired.trans (hlast t ht)⟩

theorem Tracks.drop {l : ValidationLease} (h : Tracks cell row? last) (hl : cell.lease = some l)
    (hexpired : l.expiresAt ≤ now) : Tracks ⟨none, cell.counter⟩ row? (some now) where
  counter := h.counter
  lease := nofun
  gone := by
    intro _ row hrow
    obtain rfl := Option.some.inj ((h.lease l hl).symm.trans hrow)
    exact ⟨now, rfl, hexpired⟩

theorem tracks_counter (claim : LeaseClaim) {s : InMemoryValidationLeaseStore}
    (h : Tracks (s.cell claim.scope) row? last) (hrow : row? = some row) :
    (s.cell claim.scope).counter = row.fencingToken := by
  rw [h.counter, hrow]
  rfl

theorem Tracks.hold (row : ValidationLease) (last : Option Int) :
    Tracks ⟨some row, row.fencingToken⟩ (some row) last where
  counter := rfl
  lease := fun _ h => h
  gone := nofun

theorem Tracks.expired (h : Tracks cell row? last) (hlast : ∀ t ∈ last, t ≤ now) (hnone : cell.lease = none)
    (hrow : row? = some row) :
    row.expiresAt ≤ now := by
  obtain ⟨t, ht, hexpired⟩ := h.gone hnone row hrow
  exact hexpired.trans (hlast t ht)

/-- What the in-memory store answers, and leaves in the cell of the scope. -/
def Serves (s : InMemoryValidationLeaseStore) (row? : Option ValidationLease) (now : Int)
    (call : LeaseCall Int) (r : InMemoryValidationLeaseStore × Except JsError StoreResult) : Prop :=
  ∃ cell', InMemoryValidationLeaseStore.Moves s r.1 call.scope cell' ∧
    ((wellFormed now call = true ∧ Admits row? now call ∧ ∃ row' g,
        served row? now call = some (row', g) ∧ granted r.2 = some g ∧
        Tracks cell' (some row') (some now)) ∨
      (¬ (wellFormed now call = true ∧ Admits row? now call) ∧ granted r.2 = none ∧
        Tracks cell' row? (some now)))

namespace InMemoryStore

open InMemoryValidationLeaseStore

variable {s : InMemoryValidationLeaseStore} {call : LeaseCall Int}

theorem serves_invalid {result : Except JsError StoreResult}
    (htracks : Tracks (s.cell call.scope) row? (some now)) (hinvalid : wellFormed now call = false)
    (hresult : granted result = none) : Serves s row? now call (s, result) :=
  ⟨_, moves_refl s call.scope, Or.inr ⟨fun h => absurd (hinvalid.symm.trans h.1) nofun, hresult, htracks⟩⟩

theorem withLease_serves (call : LeaseCall Int) (hlast : ∀ t ∈ last, t ≤ now)
    (htracks : Tracks (s.cell call.scope) row? last) (hvalid : wellFormed now call = true)
    (hadmits : Admits row? now call ↔ ∃ row ∈ row?, Matches row call.claim fencingToken now)
    (next : ValidationLease → InMemoryValidationLeaseStore × StoreResult)
    (hnext : ∀ row, row? = some row → (s.cell call.scope).lease = some row → ∃ cell' row' g, Moves s (next row).1 call.scope cell' ∧ served row? now call = some (row', g) ∧ granted (.ok (next row).2 : Except JsError StoreResult) = some g ∧ Tracks cell' (some row') (some now)) :
    
    Serves s row? now call (s.withLease call.claim fencingToken now next) := by
  unfold withLease
  have hcell : (s.cell call.scope).lease = s.leases.get? call.claim.key := rfl
  cases hget : s.leases.get? call.claim.key with
  | none =>
    rw [hget] at hcell
    refine ⟨_, moves_refl s call.scope, Or.inr ⟨?_, rfl, htracks.later hlast⟩⟩
    rintro ⟨-, hadm⟩
    obtain ⟨row, hrow, -, -, -, hlive⟩ := hadmits.mp hadm
    have hexpired := htracks.expired hlast hcell hrow
    omega
  | some current =>
    rw [hget] at hcell
    have hrow := htracks.lease current hcell
    dsimp only
    split_ifs with hexpired
    · refine ⟨_, moves_erase s call.scope, Or.inr ⟨?_, rfl, htracks.drop hcell hexpired⟩⟩
      rintro ⟨-, hadm⟩
      obtain ⟨row, hrow', -, -, -, hlive⟩ := hadmits.mp hadm
      obtain rfl := Option.some.inj (hrow.symm.trans hrow')
      omega
    · have hlive : now < current.expiresAt := by omega
      cases hreason : Lease.identityReason current call.claim fencingToken with
      | some reason =>
        refine ⟨_, moves_refl s call.scope, Or.inr ⟨?_, rfl, htracks.later hlast⟩⟩
        rintro ⟨-, hadm⟩
        obtain ⟨row, hrow', hmatches⟩ := hadmits.mp hadm
        obtain rfl := Option.some.inj (hrow.symm.trans hrow')
        rw [(memory_identityReason_eq_none_iff hlive).mpr hmatches] at hreason
        cases hreason
      | none =>
        obtain ⟨cell', row', g, hmoves, hserved, hgranted, htracks'⟩ := hnext current hrow hcell
        exact ⟨cell', hmoves, Or.inl ⟨hvalid, hadmits.mpr ⟨current, hrow,
          (memory_identityReason_eq_none_iff hlive).mp hreason⟩, row', g, hserved, hgranted, htracks'⟩⟩

theorem nextToken_serves {s1 : InMemoryValidationLeaseStore} {expiresAt : Int}
    (hvalid : wellFormed now (.acquire claim expiresAt) = true)
    (hmoves : Moves s s1 claim.scope ⟨none, (s.cell claim.scope).counter⟩)
    (htracks : Tracks ⟨none, (s.cell claim.scope).counter⟩ row? (some now)) :
    Serves s row? now (.acquire claim expiresAt)
      (match s1.nextToken claim.key with
        | .error err => (s1, .error err)
        | .ok (s2, fencingToken) =>
          let lease : ValidationLease := ⟨claim, fencingToken, now, now, expiresAt⟩
          ({ s2 with leases := s2.leases.set claim.key lease }, .ok (.acquired lease))) := by
  have hcounter : (s1.fencingCounters.get? claim.key).getD 0 = (s.cell claim.scope).counter :=
    congrArg LeaseCell.counter hmoves.own
  have htoken : (s.cell claim.scope).counter = (row?.map ValidationLease.fencingToken).getD 0 :=
    htracks.counter
  unfold nextToken
  dsimp only
  rw [hcounter]
  split_ifs with hexhausted
  · refine ⟨_, hmoves, Or.inr ⟨?_, rfl, htracks⟩⟩
    rintro ⟨-, hadm⟩
    cases hrow : row? with
    | none =>
      rw [hrow] at htoken
      rw [htoken] at hexhausted
      exact absurd hexhausted (by decide)
    | some row =>
      have hleft := (hadm row hrow).2
      rw [hrow] at htoken
      rw [htoken] at hexhausted
      exact absurd hleft (not_lt.mpr hexhausted)
  · refine ⟨_, hmoves.trans (moves_grant s1 claim.scope _ _), Or.inl ⟨hvalid, ?_, _, _, rfl, ?_, ?_⟩⟩
    · intro row hrow
      obtain ⟨t, ht, hexpired⟩ := htracks.gone rfl row hrow
      cases ht
      rw [hrow] at htoken
      refine ⟨hexpired, ?_⟩
      rw [htoken] at hexhausted
      exact not_le.mp hexhausted
    · rw [← htoken]
      rfl
    · rw [← htoken]
      exact Tracks.hold _ _

theorem eq_true_of_not {b : Bool} (h : ¬ (!b) = true) : b = true := by
  simpa using h

theorem performAt_serves (hlast : ∀ t ∈ last, t ≤ now)
    (htracks : Tracks (s.cell call.scope) row? last) :
    Serves s row? now call (s.performAt now call) := by
  cases call with
  | acquire claim expiresAt =>
    unfold performAt
    dsimp only
    split_ifs with hvalid
    · exact serves_invalid (htracks.later hlast) ((Bool.not_eq_true' _).mp hvalid) rfl
    · have hvalid' : wellFormed now (.acquire claim expiresAt) = true := eq_true_of_not hvalid
      have hcell : (s.cell claim.scope).lease = s.leases.get? claim.key := rfl
      unfold active
      cases hget : s.leases.get? claim.key with
      | none =>
        rw [hget] at hcell
        have hsame : s.cell claim.scope = ⟨none, (s.cell claim.scope).counter⟩ := by
          rw [← hcell]
        refine nextToken_serves hvalid' ?_ ?_
        · rw [← hsame]
          exact moves_refl s claim.scope
        · rw [← hsame]
          exact htracks.later hlast
      | some current =>
        rw [hget] at hcell
        dsimp only
        split_ifs with hexpired
        · exact nextToken_serves hvalid' (moves_erase s claim.scope) (htracks.drop hcell hexpired)
        · refine ⟨_, moves_refl s claim.scope, Or.inr ⟨?_, rfl, htracks.later hlast⟩⟩
          rintro ⟨-, hadm⟩
          exact hexpired (hadm current (htracks.lease current hcell)).1
  | renew claim fencingToken expiresAt =>
    unfold performAt
    dsimp only
    split_ifs with hvalid
    · exact serves_invalid (htracks.later hlast) ((Bool.not_eq_true' _).mp hvalid) rfl
    · refine withLease_serves (.renew claim fencingToken expiresAt) hlast htracks
        (eq_true_of_not hvalid) Iff.rfl _ (fun row hrow _ => ?_)
      refine ⟨_, _, _, moves_set s claim.scope _, by rw [hrow]; rfl, rfl, ?_⟩
      rw [tracks_counter claim htracks hrow]
      exact Tracks.hold _ _
  | release claim fencingToken =>
    unfold performAt
    dsimp only
    split_ifs with hvalid
    · exact serves_invalid (htracks.later hlast) ((Bool.not_eq_true' _).mp hvalid) rfl
    · refine withLease_serves (.release claim fencingToken) hlast htracks
        (eq_true_of_not hvalid) Iff.rfl _ (fun row hrow _ => ?_)
      refine ⟨_, _, _, moves_erase s claim.scope, by rw [hrow]; rfl, rfl, ?_, nofun, ?_⟩
      · show (s.cell claim.scope).counter = row.fencingToken
        exact tracks_counter claim htracks hrow
      · rintro _ row' hrow'
        cases hrow'
        exact ⟨now, rfl, le_rfl⟩
  | validate claim fencingToken =>
    unfold performAt
    dsimp only
    split_ifs with hvalid
    · exact serves_invalid (htracks.later hlast) ((Bool.not_eq_true' _).mp hvalid) rfl
    · refine withLease_serves (.validate claim fencingToken) hlast htracks
        (eq_true_of_not hvalid) Iff.rfl _ (fun row hrow _ => ?_)
      exact ⟨_, _, _, moves_refl s claim.scope, by rw [hrow]; rfl, rfl, hrow ▸ htracks.later hlast⟩

end InMemoryStore

/-! ## The table -/

/-- A check that passes if `passes`, and else throws. -/
def Checks (passes : Bool) (check : Except PostgresError Unit) : Prop :=
  (passes = true ∧ check = .ok ()) ∨ (passes = false ∧ ∃ err, check = .error err)

theorem checks_require (passes : Bool) (message : String) : Checks passes (require passes message) := by
  cases passes
  · exact .inr ⟨rfl, _, rfl⟩
  · exact .inl ⟨rfl, rfl⟩

theorem checks_column (passes : Bool) (name : String) : Checks passes (column passes name) := by
  cases passes
  · exact .inr ⟨rfl, _, rfl⟩
  · exact .inl ⟨rfl, rfl⟩

theorem Checks.ok {passes : Bool} {check : Except PostgresError Unit} (h : Checks passes check)
    (hpasses : passes = true) : check = .ok () := by
  rcases h with ⟨-, hok⟩ | ⟨hfails, -⟩
  · exact hok
  · cases hfails.symm.trans hpasses

theorem Checks.bind {b c : Bool} {x y : Except PostgresError Unit} (hx : Checks b x)
    (hy : Checks c y) : Checks (b && c) (x >>= fun _ => y) := by
  rcases hx with ⟨rfl, rfl⟩ | ⟨rfl, err, rfl⟩
  · exact hy
  · exact .inr ⟨rfl, err, rfl⟩

theorem checks_validateClaim (claim : LeaseClaim) : Checks (validClaim claim) (validateClaim claim) := by
  unfold validClaim
  rw [Bool.and_assoc, Bool.and_assoc]
  exact (checks_require _ _).bind ((checks_require _ _).bind ((checks_require _ _).bind (checks_require _ _)))

def validateCall (now : Int) : LeaseCall Int → Except PostgresError Unit
  | .acquire claim expiresAt => validateAcquire claim expiresAt now
  | .renew claim fencingToken expiresAt => validateRenew claim fencingToken expiresAt now
  | .release claim fencingToken => validateMutation claim fencingToken
  | .validate claim fencingToken => validateMutation claim fencingToken

theorem checks_validateCall (now : Int) (call : LeaseCall Int) : Checks (wellFormed now call) (validateCall now call) := by
  cases call with
  | acquire claim expiresAt =>
    have h := (checks_validateClaim claim).bind
      (checks_require (validTime expiresAt && decide (now < expiresAt)) "expiresAt must be after now")
    rwa [← Bool.and_assoc] at h
  | renew claim fencingToken expiresAt =>
    have h := (checks_validateClaim claim).bind ((checks_require (validToken fencingToken)
      "fencingToken must be a positive safe integer").bind
      (checks_require (validTime expiresAt && decide (now < expiresAt)) "expiresAt must be after now"))
    rwa [← Bool.and_assoc, ← Bool.and_assoc] at h
  | release claim fencingToken => exact (checks_validateClaim claim).bind (checks_require _ _)
  | validate claim fencingToken => exact (checks_validateClaim claim).bind (checks_require _ _)

def readable (row : ValidationLease) : Bool :=
  validText row.claim.tenantId && (validText row.claim.resourceId && (validText row.claim.owner &&
    (validText row.claim.leaseId && (validToken row.fencingToken && (validTime row.acquiredAt &&
      (validTime row.renewedAt && validTime row.expiresAt))))))

theorem readable_iff (row : ValidationLease) : readable row = true ↔
    validClaim row.claim = true ∧ validToken row.fencingToken = true ∧
      validTime row.acquiredAt = true ∧ validTime row.renewedAt = true ∧
      validTime row.expiresAt = true := by
  unfold readable validClaim
  simp only [Bool.and_eq_true, and_assoc]

theorem leaseFromRow_cases (row : ValidationLease) : (readable row = true ∧ leaseFromRow row = .ok row) ∨
      (readable row = false ∧ ∃ err, leaseFromRow row = .error err) := by
  have hcolumns : Checks (readable row) _ :=
    (checks_column (validText row.claim.tenantId) "tenant_id").bind
    ((checks_column (validText row.claim.resourceId) "resource_id").bind
    ((checks_column (validText row.claim.owner) "owner").bind
    ((checks_column (validText row.claim.leaseId) "lease_id").bind
    ((checks_column (validToken row.fencingToken) "fencing_token").bind
    ((checks_column (validTime row.acquiredAt) "acquired_at").bind
    ((checks_column (validTime row.renewedAt) "renewed_at").bind
      (checks_column (validTime row.expiresAt) "expires_at")))))))
  have hread : leaseFromRow row
      = ((do
        column (validText row.claim.tenantId) "tenant_id"
        column (validText row.claim.resourceId) "resource_id"
        column (validText row.claim.owner) "owner"
        column (validText row.claim.leaseId) "lease_id"
        column (validToken row.fencingToken) "fencing_token"
        column (validTime row.acquiredAt) "acquired_at"
        column (validTime row.renewedAt) "renewed_at"
        column (validTime row.expiresAt) "expires_at") >>= fun _ => Except.ok row) := by
    unfold leaseFromRow
    simp only [bind_assoc]
    rfl
  rw [hread]
  rcases hcolumns with ⟨hall, hok⟩ | ⟨hall, err, herror⟩
  · exact .inl ⟨hall, by rw [hok]; rfl⟩
  · exact .inr ⟨hall, err, by rw [herror]; rfl⟩

namespace LeaseTable

variable {t t' : LeaseTable} {call : LeaseCall Int}

/-- The rows stand under their scopes, and can be read back. -/
def Sound (t : LeaseTable) : Prop :=
  ∀ scope row, t.row? scope = some row → row.claim.scope = scope ∧ readable row = true

theorem row?_checks {scope : String × String} (h : t.row? scope = some row) :
    (claimTexts row.claim).all storable = true ∧ row.fencingToken > 0 ∧ row.acquiredAt ≥ 0 ∧
      row.renewedAt ≥ row.acquiredAt ∧ row.expiresAt > row.renewedAt := by
  obtain ⟨stored, -, rfl⟩ := Option.map_eq_some_iff.mp h
  have hchecks := stored.checks
  unfold constraintsHold at hchecks
  simp only [Bool.and_eq_true, decide_eq_true_eq, and_assoc] at hchecks
  exact ⟨stored.texts, hchecks⟩

/-- `t'` is `t` with `row` as the row of its scope. -/
structure Puts (t t' : LeaseTable) (row : ValidationLease) : Prop where
  own : t'.row? row.claim.scope = some row
  other : ∀ scope, scope ≠ row.claim.scope → t'.row? scope = t.row? scope

theorem Puts.sound (h : t.Puts t' row) (ht : t.Sound) (hreadable : readable row = true) : t'.Sound := by
  intro scope row' hrow'
  by_cases hscope : scope = row.claim.scope
  · subst hscope
    obtain rfl := Option.some.inj (h.own.symm.trans hrow')
    exact ⟨rfl, hreadable⟩
  · exact ht scope row' ((h.other scope hscope).symm.trans hrow')

theorem put_cases (t : LeaseTable) (row : ValidationLease) :
    ((claimTexts row.claim).all storable = true ∧ constraintsHold row = true ∧ ∃ t', t.put row = .ok t' ∧ t.Puts t' row) ∨
    (¬ ((claimTexts row.claim).all storable = true ∧ constraintsHold row = true) ∧
      ∃ err, t.put row = .error err) := by
  unfold put
  split_ifs with htexts hchecks
  · refine .inl ⟨htexts, hchecks, _, rfl, ?_, ?_⟩
    · show (OrderedMap.get? _ _).map LeaseRow.row = _
      rw [OrderedMap.get?_set_self]
      rfl
    · intro scope hne
      show (OrderedMap.get? _ _).map LeaseRow.row = _
      rw [OrderedMap.get?_set_of_ne _ _ hne]
      rfl
  · exact .inr ⟨fun h => hchecks h.2, _, rfl⟩
  · exact .inr ⟨fun h => htexts h.1, _, rfl⟩

/-- A transaction that throws, or that changes nothing and grants nothing. -/
def Refuses (t : LeaseTable) (action : Except PostgresError (LeaseTable × StoreResult)) : Prop :=
  (∃ err, action = .error err) ∨
    ∃ answer, action = .ok (t, answer) ∧ granted (.ok answer : Except PostgresError _) = none

/-- The transaction of a well-formed request serves it as the row of its scope does. -/
def ServedBy (t : LeaseTable) (now : Int) (call : LeaseCall Int)
    (action : Except PostgresError (LeaseTable × StoreResult)) : Prop :=
  (Admits (t.row? call.scope) now call ∧ Storable (t.row? call.scope) now call ∧
    ∃ t' answer row g, action = .ok (t', answer) ∧ t.Puts t' row ∧ row.claim.scope = call.scope ∧
      readable row = true ∧ served (t.row? call.scope) now call = some (row, g) ∧
      granted (.ok answer : Except PostgresError _) = some g) ∨
  (¬ (Admits (t.row? call.scope) now call ∧ Storable (t.row? call.scope) now call) ∧
    t.Refuses action)

theorem current_eq (ht : t.Sound) (claim : LeaseClaim) : t.current claim = .ok (t.row? claim.scope) := by
  unfold current
  cases hrow : t.row? claim.scope with
  | none => rfl
  | some row =>
    rcases leaseFromRow_cases row with ⟨-, hok⟩ | ⟨hunreadable, -⟩
    · dsimp only
      rw [hok]
      rfl
    · cases hunreadable.symm.trans (ht _ row hrow).2

theorem rejectionFor_refuses (t : LeaseTable) (claim : LeaseClaim) (fencingToken now : Int) :
    t.Refuses (do
      let reason ← t.rejectionFor claim fencingToken now
      return (t, .rejected reason)) := by
  cases hreason : t.rejectionFor claim fencingToken now with
  | error err => exact .inl ⟨err, rfl⟩
  | ok reason => exact .inr ⟨_, rfl, rfl⟩

theorem texts_of_matches (ht : t.Sound) {now : Int} (hrow : t.row? claim.scope = some row)
    (hmatches : Matches row claim fencingToken now) : row.claim = claim := by
  have hscope := (ht _ row hrow).1
  obtain ⟨htenant, hresource⟩ := Prod.mk.inj hscope
  obtain ⟨howner, hleaseId, -⟩ := hmatches
  cases hclaim : row.claim
  cases claim
  simp_all

theorem put_serves {g : Granted} {answer : ValidationLease → StoreResult}
    (hadmits : Admits (t.row? call.scope) now call ↔ readable row = true)
    (hstorable : Storable (t.row? call.scope) now call ↔ (claimTexts row.claim).all storable = true ∧ constraintsHold row = true)
    (hscope : row.claim.scope = call.scope) (hserved : served (t.row? call.scope) now call = some (row, g))
    (hgranted : granted (.ok (answer row) : Except PostgresError _) = some g) :
    t.ServedBy now call (do
      let t' ← t.put row
      return (t', answer (← leaseFromRow row))) := by
  rcases t.put_cases row with ⟨htexts, hchecks, t', hput, hputs⟩ | ⟨hfails, err, hput⟩
  · rw [hput]
    rcases leaseFromRow_cases row with ⟨hreadable, hread⟩ | ⟨hunreadable, err, hread⟩
    · refine .inl ⟨hadmits.mpr hreadable, hstorable.mpr ⟨htexts, hchecks⟩, t', answer row, row, g,
        ?_, hputs, hscope, hreadable, hserved, hgranted⟩
      show (leaseFromRow row >>= fun lease => Except.ok (t', answer lease)) = _
      rw [hread]
      rfl
    · refine .inr ⟨fun h => ?_, Or.inl ⟨err, ?_⟩⟩
      · cases hunreadable.symm.trans (hadmits.mp h.1)
      · show (leaseFromRow row >>= fun lease => Except.ok (t', answer lease)) = _
        rw [hread]
        rfl
  · rw [hput]
    exact .inr ⟨fun h => hfails (hstorable.mp h.2), Or.inl ⟨err, rfl⟩⟩

theorem validTime_nonneg {value : Int} (h : validTime value = true) : 0 ≤ value := by
  unfold validTime at h
  simp only [Bool.and_eq_true, decide_eq_true_eq] at h
  exact h.2

theorem validToken_iff {value : Int} (hpos : 0 < value) : validToken value = true ↔ value ≤ maxSafeInteger := by
  unfold validToken isSafeInteger
  simp only [Bool.and_eq_true, decide_eq_true_eq]
  have hmax : (0 : Int) ≤ maxSafeInteger := by decide
  constructor
  · exact fun h => h.1.2
  · exact fun h => ⟨⟨by omega, h⟩, hpos⟩

theorem one_le_maxSafeInteger : 1 ≤ maxSafeInteger := by decide

theorem acquiredRow_cases (t : LeaseTable) (claim : LeaseClaim) (expiresAt now : Int) :
    (∃ row, t.acquiredRow claim expiresAt now = some row ∧ 0 < row.fencingToken ∧
      served (t.row? claim.scope) now (.acquire claim expiresAt) = some (row, .lease row) ∧
      row = ⟨claim, row.fencingToken, now, now, expiresAt⟩ ∧
      (Admits (t.row? claim.scope) now (.acquire claim expiresAt) ↔ row.fencingToken ≤ maxSafeInteger)) ∨
    (t.acquiredRow claim expiresAt now = none ∧
      ¬ Admits (t.row? claim.scope) now (.acquire claim expiresAt)) := by
  unfold acquiredRow
  cases hrow : t.row? claim.scope with
  | none => exact .inl ⟨_, rfl, Int.one_pos, rfl, rfl, fun _ => one_le_maxSafeInteger, fun _ => nofun⟩
  | some old =>
    have htoken := (row?_checks hrow).2.1
    dsimp only
    split_ifs with hexpired
    · refine .inl ⟨_, rfl, by dsimp only; omega, rfl, rfl, fun h => ?_, fun h => ?_⟩
      · exact (h old rfl).2
      · rintro row hmem
        cases hmem
        exact ⟨hexpired, h⟩
    · exact .inr ⟨rfl, fun h => hexpired (h old rfl).1⟩

theorem acquire_serves (ht : t.Sound) (htime : validTime now = true) {expiresAt : Int}
    (hvalid : wellFormed now (.acquire claim expiresAt) = true) :
    t.ServedBy now (.acquire claim expiresAt) (t.acquire claim expiresAt now) := by
  have hnow : validateNow now = .ok () := (checks_require _ _).ok htime
  have hrequest : validateAcquire claim expiresAt now = .ok () :=
    (checks_validateCall now (.acquire claim expiresAt)).ok hvalid
  unfold acquire
  rw [hnow, hrequest]
  show t.ServedBy now _ (inTenant (claimTexts claim) _)
  unfold inTenant
  split_ifs with htexts
  · obtain ⟨hclaim, hexpiry, hlater⟩ :
        validClaim claim = true ∧ validTime expiresAt = true ∧ now < expiresAt := by
      have h : validAcquireRequest claim expiresAt now = true := hvalid
      unfold validAcquireRequest at h
      simpa only [Bool.and_eq_true, decide_eq_true_eq, and_assoc] using h
    have hnonneg := validTime_nonneg htime
    rcases t.acquiredRow_cases claim expiresAt now with
      ⟨row, hrow, hpos, hserved, heq, hadmits⟩ | ⟨hrow, hadmits⟩
    · rw [hrow]
      refine put_serves (hadmits.trans ?_) ?_ (by rw [heq]; rfl) hserved rfl
      · rw [readable_iff, ← validToken_iff hpos]
        rw [heq]
        exact ⟨fun h => ⟨hclaim, h, htime, htime, hexpiry⟩, fun h => h.2.1⟩
      · rw [heq]
        refine ⟨fun h => ⟨h, ?_⟩, fun h => h.1⟩
        unfold constraintsHold
        simp only [Bool.and_eq_true, decide_eq_true_eq]
        omega
    · rw [hrow]
      refine .inr ⟨fun h => hadmits h.1, ?_⟩
      show t.Refuses (t.held claim now)
      unfold held
      rw [current_eq ht]
      cases t.row? claim.scope with
      | none => exact .inl ⟨_, rfl⟩
      | some current =>
        show t.Refuses (if current.expiresAt ≤ now then _ else _)
        split_ifs
        · exact .inl ⟨_, rfl⟩
        · exact .inr ⟨_, rfl, rfl⟩
  · exact .inr ⟨fun h => htexts h.2, Or.inl ⟨_, rfl⟩⟩

theorem matchingRow_cases (ht : t.Sound) (claim : LeaseClaim) (fencingToken now : Int) :
    (∃ row, t.row? claim.scope = some row ∧ Matches row claim fencingToken now ∧
      row.claim = claim ∧ t.matchingRow claim fencingToken now = some row) ∨
    ((¬ ∃ row ∈ t.row? claim.scope, Matches row claim fencingToken now) ∧
      t.matchingRow claim fencingToken now = none) := by
  unfold matchingRow
  cases hrow : t.row? claim.scope with
  | none => exact .inr ⟨by simp, rfl⟩
  | some row =>
    by_cases hmatches : Matches row claim fencingToken now
    · exact .inl ⟨row, rfl, hmatches, texts_of_matches ht hrow hmatches, by simp [hmatches]⟩
    · exact .inr ⟨by simpa using hmatches, by simp [hmatches]⟩

theorem renew_serves (ht : t.Sound) (htime : validTime now = true) {expiresAt : Int}
    (hvalid : wellFormed now (.renew claim fencingToken expiresAt) = true) :
    t.ServedBy now (.renew claim fencingToken expiresAt) (t.renew claim fencingToken expiresAt now) := by
  have hnow : validateNow now = .ok () := (checks_require _ _).ok htime
  have hrequest : validateRenew claim fencingToken expiresAt now = .ok () :=
    (checks_validateCall now (.renew claim fencingToken expiresAt)).ok hvalid
  unfold renew
  rw [hnow, hrequest]
  show t.ServedBy now _ (inTenant (claimTexts claim) _)
  obtain ⟨hexpiry, hlater⟩ : validTime expiresAt = true ∧ now < expiresAt := by
    have h : validRenewRequest claim fencingToken expiresAt now = true := hvalid
    unfold validRenewRequest at h
    simp only [Bool.and_eq_true, decide_eq_true_eq] at h
    exact ⟨h.1.2, h.2⟩
  unfold inTenant
  rcases t.matchingRow_cases ht claim fencingToken now with
    ⟨row, hrow, hmatches, rfl, hmatching⟩ | ⟨hnone, hmatching⟩
  · rw [if_pos (row?_checks hrow).1, hmatching]
    have hadmits : Admits (t.row? row.claim.scope) now (.renew row.claim fencingToken expiresAt) :=
      ⟨row, hrow, hmatches⟩
    have hreadable := (readable_iff row).mp (ht _ row hrow).2
    have hserved := congrArg (fun row? => served row? now (.renew row.claim fencingToken expiresAt)) hrow
    refine put_serves ⟨fun _ => ?_, fun _ => hadmits⟩ ?_ rfl hserved rfl
    · rw [readable_iff]
      exact ⟨hreadable.1, hreadable.2.1, hreadable.2.2.1, htime, hexpiry⟩
    · obtain ⟨htexts, htoken, hacquired, -, -⟩ := row?_checks hrow
      unfold constraintsHold
      simp only [Bool.and_eq_true, decide_eq_true_eq]
      constructor
      · intro h
        have hnow := h row hrow
        exact ⟨htexts, by omega⟩
      · rintro ⟨-, h⟩ row' hrow'
        obtain rfl := Option.some.inj (hrow.symm.trans hrow')
        omega
  · refine .inr ⟨fun h => hnone h.1, ?_⟩
    split_ifs
    · rw [hmatching]
      exact rejectionFor_refuses t claim fencingToken now
    · exact .inl ⟨_, rfl⟩

theorem release_serves (ht : t.Sound) (htime : validTime now = true)
    (hvalid : wellFormed now (.release claim fencingToken) = true) :
    t.ServedBy now (.release claim fencingToken) (t.release claim fencingToken now) := by
  have hnow : validateNow now = .ok () := (checks_require _ _).ok htime
  have hrequest : validateMutation claim fencingToken = .ok () :=
    (checks_validateCall now (.release claim fencingToken)).ok hvalid
  unfold release
  rw [hnow, hrequest]
  show t.ServedBy now _ (inTenant (claimTexts claim) _)
  unfold inTenant
  rcases t.matchingRow_cases ht claim fencingToken now with
    ⟨row, hrow, hmatches, rfl, hmatching⟩ | ⟨hnone, hmatching⟩
  · obtain ⟨htexts, htoken, hacquired, hrenewed, -⟩ := row?_checks hrow
    rw [if_pos htexts, hmatching]
    dsimp only
    have hserved := congrArg (fun row? => served row? now (.release row.claim fencingToken)) hrow
    have hreadable := (readable_iff row).mp (ht _ row hrow).2
    rcases t.put_cases { row with expiresAt := now } with
      ⟨-, hchecks, t', hput, hputs⟩ | ⟨hfails, err, hput⟩
    · unfold constraintsHold at hchecks
      simp only [Bool.and_eq_true, decide_eq_true_eq] at hchecks
      refine .inl ⟨⟨row, hrow, hmatches⟩, ?_, t', .released, _, _, by rw [hput]; rfl, hputs, rfl, ?_, hserved, rfl⟩
      · rintro row' hrow'
        obtain rfl := Option.some.inj (hrow.symm.trans hrow')
        omega
      · rw [readable_iff]
        exact ⟨hreadable.1, hreadable.2.1, hreadable.2.2.1, hreadable.2.2.2.1, htime⟩
    · refine .inr ⟨fun h => hfails ⟨htexts, ?_⟩, Or.inl ⟨err, by rw [hput]; rfl⟩⟩
      have hlater := h.2 row hrow
      unfold constraintsHold
      simp only [Bool.and_eq_true, decide_eq_true_eq]
      omega
  · refine .inr ⟨fun h => hnone h.1, ?_⟩
    rw [hmatching]
    split_ifs
    · exact rejectionFor_refuses t claim fencingToken now
    · exact .inl ⟨_, rfl⟩

theorem validate_serves (ht : t.Sound) (htime : validTime now = true)
    (hvalid : wellFormed now (.validate claim fencingToken) = true) :
    t.ServedBy now (.validate claim fencingToken) (t.validate claim fencingToken now) := by
  have hnow : validateNow now = .ok () := (checks_require _ _).ok htime
  have hrequest : validateMutation claim fencingToken = .ok () :=
    (checks_validateCall now (.validate claim fencingToken)).ok hvalid
  unfold validate
  rw [hnow, hrequest, current_eq ht]
  show t.ServedBy now _ (inTenant [claim.tenantId, claim.resourceId] _)
  unfold inTenant
  cases hrow : t.row? claim.scope with
  | none =>
    refine .inr ⟨fun h => ?_, ?_⟩
    · obtain ⟨row, hmem, -⟩ := h.1
      cases hrow.symm.trans hmem
    · split_ifs
      · exact .inr ⟨_, rfl, rfl⟩
      · exact .inl ⟨_, rfl⟩
  | some row =>
    have hrefuse : ¬ Matches row claim fencingToken now →
        ¬ (Admits (t.row? claim.scope) now (.validate claim fencingToken) ∧
          Storable (t.row? claim.scope) now (.validate claim fencingToken)) := by
      rintro hne ⟨⟨row', hmem, hmatches⟩, -⟩
      obtain rfl := Option.some.inj (hrow.symm.trans hmem)
      exact hne hmatches
    have htexts : [claim.tenantId, claim.resourceId].all storable = true := by
      have hall := (row?_checks hrow).1
      obtain ⟨htenant, hresource⟩ := Prod.mk.inj (ht _ row hrow).1
      unfold claimTexts at hall
      rw [← htenant, ← hresource]
      simp only [List.all_cons, List.all_nil, Bool.and_eq_true] at hall ⊢
      exact ⟨hall.1, hall.2.1, trivial⟩
    rw [if_pos htexts]
    dsimp only [bind, Except.bind]
    split_ifs with hexpired
    · exact .inr ⟨hrefuse (fun h => by have := h.2.2.2; omega), Or.inr ⟨_, rfl, rfl⟩⟩
    · have hlive : now < row.expiresAt := by omega
      cases hreason : identityReason row claim fencingToken with
      | some reason =>
        refine .inr ⟨hrefuse (fun h => ?_), Or.inr ⟨_, rfl, rfl⟩⟩
        rw [(identityReason_eq_none_iff hlive).mpr h] at hreason
        cases hreason
      | none =>
        have hmatches := (identityReason_eq_none_iff hlive).mp hreason
        have hserved := congrArg (fun row? => served row? now (.validate claim fencingToken)) hrow
        have hscope := (ht _ row hrow).1
        exact .inl ⟨⟨row, hrow, hmatches⟩, trivial, t, .valid row, row, .lease row, rfl,
          ⟨hscope ▸ hrow, fun _ _ => rfl⟩, hscope, (ht _ row hrow).2, hserved, rfl⟩

def action (t : LeaseTable) (now : Int) :
    LeaseCall Int → Except PostgresError (LeaseTable × StoreResult)
  | .acquire claim expiresAt => t.acquire claim expiresAt now
  | .renew claim fencingToken expiresAt => t.renew claim fencingToken expiresAt now
  | .release claim fencingToken => t.release claim fencingToken now
  | .validate claim fencingToken => t.validate claim fencingToken now

theorem perform_eq (t : LeaseTable) (now : Int) (call : LeaseCall Int) :
    t.perform now call = withPostgresTransaction t (t.action now call) := by
  cases call <;> rfl

theorem action_serves (ht : t.Sound) (htime : validTime now = true)
    (hvalid : wellFormed now call = true) : t.ServedBy now call (t.action now call) := by
  cases call with
  | acquire claim expiresAt => exact acquire_serves ht htime hvalid
  | renew claim fencingToken expiresAt => exact renew_serves ht htime hvalid
  | release claim fencingToken => exact release_serves ht htime hvalid
  | validate claim fencingToken => exact validate_serves ht htime hvalid

theorem action_throws (t : LeaseTable)
    (h : ¬ (validTime now = true ∧ wellFormed now call = true)) :
    ∃ err, t.action now call = .error err := by
  obtain ⟨body, hbody⟩ : ∃ body, t.action now call
      = (validateNow now >>= fun _ => validateCall now call >>= fun _ => body) := by
    cases call <;> exact ⟨_, rfl⟩
  have hchecks := (checks_require (validTime now) "now must be a non-negative safe integer").bind
    (checks_validateCall now call)
  rcases hchecks with ⟨hpasses, -⟩ | ⟨-, err, herror⟩
  · exact absurd (by simpa only [Bool.and_eq_true] using hpasses) h
  · refine ⟨err, ?_⟩
    rw [hbody, ← bind_assoc]
    show ((validateNow now >>= fun _ => validateCall now call) >>= _) = _
    rw [show (validateNow now >>= fun _ => validateCall now call) = .error err from herror]
    rfl

theorem Refuses.transaction {action : Except PostgresError (LeaseTable × StoreResult)}
    (h : t.Refuses action) : granted (withPostgresTransaction t action).2 = none ∧
      (withPostgresTransaction t action).1 = t := by
  rcases h with ⟨err, rfl⟩ | ⟨answer, rfl, hgranted⟩
  · exact ⟨rfl, rfl⟩
  · exact ⟨hgranted, rfl⟩

theorem perform_cases (ht : t.Sound) (now : Int) (call : LeaseCall Int) :
    ((validTime now = true ∧ wellFormed now call = true ∧ Admits (t.row? call.scope) now call ∧
        Storable (t.row? call.scope) now call) ∧
      ∃ row g, served (t.row? call.scope) now call = some (row, g) ∧
        granted (t.perform now call).2 = some g ∧ t.Puts (t.perform now call).1 row ∧
        row.claim.scope = call.scope ∧ (t.perform now call).1.Sound) ∨
    (¬ (validTime now = true ∧ wellFormed now call = true ∧ Admits (t.row? call.scope) now call ∧
        Storable (t.row? call.scope) now call) ∧
      granted (t.perform now call).2 = none ∧ (t.perform now call).1 = t) := by
  rw [perform_eq]
  by_cases hvalid : validTime now = true ∧ wellFormed now call = true
  · rcases action_serves ht hvalid.1 hvalid.2 with
      ⟨hadmits, hstorable, t', answer, row, g, haction, hputs, hscope, hreadable, hserved, hgranted⟩ |
      ⟨hne, hrefuses⟩
    · rw [haction]
      exact .inl ⟨⟨hvalid.1, hvalid.2, hadmits, hstorable⟩, row, g, hserved, hgranted, hputs, hscope,
        hputs.sound ht hreadable⟩
    · exact .inr ⟨fun h => hne h.2.2, hrefuses.transaction⟩
  · obtain ⟨err, hthrows⟩ := action_throws t hvalid
    exact .inr ⟨fun h => hvalid ⟨h.1, h.2.1⟩, Refuses.transaction (Or.inl ⟨err, hthrows⟩)⟩

end LeaseTable

/-! ## Both stores -/

namespace LeaseStores

open InMemoryValidationLeaseStore

variable {w : LeaseStores} {call : LeaseCall Int}

/-- The in-memory store tracks the rows of the table. -/
structure Related (w : LeaseStores) : Prop where
  sound : w.postgres.Sound
  tracks : ∀ scope, Tracks (w.memory.cell scope) (w.postgres.row? scope) w.memory.lastObservedAt

theorem Related.initial : Related {} where
  sound := nofun
  tracks := fun _ => ⟨rfl, nofun, nofun⟩

theorem memory_refuses (call : LeaseCall Int) (h : ¬ (validTime now = true ∧ ¬ w.Backwards now)) :
    granted (w.memory.perform now call).2 = none ∧ (w.memory.perform now call).1 = w.memory := by
  rw [InMemoryValidationLeaseStore.perform_eq]
  cases hclock : w.memory.observeClock now with
  | error err => exact ⟨rfl, rfl⟩
  | ok s =>
    refine absurd ⟨?_, ?_⟩ h
    · unfold observeClock at hclock
      split_ifs at hclock with hvalid
      simpa using hvalid
    · rintro ⟨last, hlast, hbefore⟩
      have hle := (observeClock_ok hclock).2 last hlast
      omega

theorem memory_serves (call : LeaseCall Int) (h : w.Related) (htime : validTime now = true) (hclock : ¬ w.Backwards now) :
    (w.memory.perform now call).1.lastObservedAt = some now ∧ (∀ t ∈ w.memory.lastObservedAt, t ≤ now) ∧
      Serves { w.memory with lastObservedAt := some now } (w.postgres.row? call.scope) now call
        (w.memory.perform now call) := by
  have hlast : ∀ t ∈ w.memory.lastObservedAt, t ≤ now :=
    fun t ht => not_lt.mp (fun hlt => hclock ⟨t, ht, hlt⟩)
  have hperform : w.memory.perform now call
      = ({ w.memory with lastObservedAt := some now } : InMemoryValidationLeaseStore).performAt
          now call := by
    rw [InMemoryValidationLeaseStore.perform_eq, observeClock_of_le htime hlast]
  have hserves : Serves { w.memory with lastObservedAt := some now } (w.postgres.row? call.scope) now
      call (w.memory.perform now call) := by
    rw [hperform]
    refine InMemoryStore.performAt_serves hlast ?_
    exact h.tracks call.scope
  have hobserved : (w.memory.perform now call).1.lastObservedAt = some now := by
    obtain ⟨cell', hmoves, -⟩ := hserves
    exact hmoves.observed
  exact ⟨hobserved, hlast, hserves⟩

theorem Related.agree_iff (h : w.Related) (now : Int) (call : LeaseCall Int) : w.Agree now call ↔ w.Agreeable now call := by
  unfold Agree Agreeable
  by_cases hclock : validTime now = true ∧ ¬ w.Backwards now
  · obtain ⟨htime, hforwards⟩ := hclock
    obtain ⟨-, -, cell', -, hmemory⟩ := memory_serves call h htime hforwards
    rcases hmemory with ⟨hvalid, hadmits, row, g, hserved, hgranted, -⟩ | ⟨hne, hgranted, -⟩
    · rcases LeaseTable.perform_cases h.sound now call with
        ⟨⟨-, -, -, hstorable⟩, row', g', hserved', hgranted', -⟩ | ⟨hne, hgranted', -⟩
      · obtain ⟨-, rfl⟩ := Prod.mk.inj (Option.some.inj (hserved.symm.trans hserved'))
        rw [hgranted, hgranted']
        exact ⟨fun _ _ _ _ => iff_of_true hforwards hstorable, fun _ => rfl⟩
      · rw [hgranted, hgranted']
        refine ⟨nofun, fun hcond => ?_⟩
        exact absurd ⟨htime, hvalid, hadmits, (hcond htime hvalid hadmits).mp hforwards⟩ hne
    · rcases LeaseTable.perform_cases h.sound now call with
        ⟨⟨-, hvalid, hadmits, -⟩, -⟩ | ⟨-, hgranted', -⟩
      · exact absurd ⟨hvalid, hadmits⟩ hne
      · rw [hgranted, hgranted']
        exact ⟨fun _ _ hvalid hadmits => absurd ⟨hvalid, hadmits⟩ hne, fun _ => rfl⟩
  · obtain ⟨hgranted, -⟩ := memory_refuses call hclock
    rcases LeaseTable.perform_cases h.sound now call with
      ⟨⟨htime, hvalid, hadmits, hstorable⟩, row', g', -, hgranted', -⟩ | ⟨hne, hgranted', -⟩
    · rw [hgranted, hgranted']
      refine ⟨nofun, fun hcond => ?_⟩
      exact absurd ⟨htime, (hcond htime hvalid hadmits).mpr hstorable⟩ hclock
    · rw [hgranted, hgranted']
      refine ⟨fun _ htime hvalid hadmits => iff_of_false (fun hforwards => hclock ⟨htime, hforwards⟩)
        (fun hstorable => hne ⟨htime, hvalid, hadmits, hstorable⟩), fun _ => rfl⟩

theorem Related.perform (h : w.Related) (hagree : w.Agreeable now call) : (w.perform now call).Related := by
  by_cases hclock : validTime now = true ∧ ¬ w.Backwards now
  · obtain ⟨htime, hforwards⟩ := hclock
    obtain ⟨hobserved, hlast, cell', hmoves, hmemory⟩ := memory_serves call h htime hforwards
    have hother : ∀ scope, scope ≠ call.scope →
        Tracks ((w.memory.perform now call).1.cell scope) (w.postgres.row? scope) (some now) := by
      intro scope hne
      rw [hmoves.other scope hne]
      exact (h.tracks scope).later hlast
    rcases hmemory with ⟨hvalid, hadmits, row, g, hserved, hgranted, htracks⟩ | ⟨hne, hgranted, htracks⟩
    · rcases LeaseTable.perform_cases h.sound now call with
        ⟨-, row', g', hserved', -, hputs, hscope, hsound⟩ | ⟨hne, -⟩
      · obtain ⟨rfl, -⟩ := Prod.mk.inj (Option.some.inj (hserved.symm.trans hserved'))
        refine ⟨hsound, fun scope => ?_⟩
        show Tracks ((w.memory.perform now call).1.cell scope)
          ((w.postgres.perform now call).1.row? scope) (w.memory.perform now call).1.lastObservedAt
        rw [hobserved]
        by_cases heq : scope = call.scope
        · rw [heq, hmoves.own, ← hscope, hputs.own]
          exact htracks
        · rw [hputs.other scope (hscope ▸ heq)]
          exact hother scope heq
      · exact absurd ⟨htime, hvalid, hadmits, (hagree htime hvalid hadmits).mp hforwards⟩ hne
    · rcases LeaseTable.perform_cases h.sound now call with
        ⟨⟨-, hvalid, hadmits, -⟩, -⟩ | ⟨-, -, hsame⟩
      · exact absurd ⟨hvalid, hadmits⟩ hne
      · refine ⟨?_, fun scope => ?_⟩
        · show (w.postgres.perform now call).1.Sound
          rw [hsame]
          exact h.sound
        · show Tracks ((w.memory.perform now call).1.cell scope)
            ((w.postgres.perform now call).1.row? scope) (w.memory.perform now call).1.lastObservedAt
          rw [hobserved, hsame]
          by_cases heq : scope = call.scope
          · rw [heq, hmoves.own]
            exact htracks
          · exact hother scope heq
  · obtain ⟨-, hmemory⟩ := memory_refuses call hclock
    have hpostgres : (w.postgres.perform now call).1 = w.postgres := by
      rcases LeaseTable.perform_cases h.sound now call with
        ⟨⟨htime, hvalid, hadmits, hstorable⟩, -⟩ | ⟨-, -, hsame⟩
      · exact absurd ⟨htime, (hagree htime hvalid hadmits).mpr hstorable⟩ hclock
      · exact hsame
    have hsame : w.perform now call = w := by
      unfold LeaseStores.perform
      rw [hmemory, hpostgres]
    rw [hsame]
    exact h

theorem related_of_reachable (h : (system.restrict (fun w i _ => w.Agreeable i.1 i.2)).Reachable w) : w.Related := by
  refine h.invariant Related ?_ ?_
  · rintro w rfl
    exact Related.initial
  · rintro w ⟨now, call⟩ w' hw ⟨rfl, hagree⟩
    exact hw.perform hagree

/-- In every run whose requests meet the condition, the stores agree on the next request exactly where
    it meets the condition, too. -/
theorem agree_of_run (h : (system.restrict (fun w i _ => w.Agreeable i.1 i.2)).Reachable w)
    (now : Int) (call : LeaseCall Int) : w.Agree now call ↔ w.Agreeable now call :=
  (related_of_reachable h).agree_iff now call

def claimOfAgent : LeaseClaim := ⟨"tenant:acme", "resource:checkout", "agent:a", "lease:a"⟩

def acquiredAt1000 : LeaseStores := ({} : LeaseStores).perform 1000 (.acquire claimOfAgent 1100)

theorem acquiredAt1000_reachable : (system.restrict (fun w i _ => w.Agreeable i.1 i.2)).Reachable acquiredAt1000 := by
  refine System.Reachable.step (i := (1000, .acquire claimOfAgent 1100)) (.init rfl) ⟨rfl, ?_⟩
  intro _ _ _
  have htexts : (claimTexts claimOfAgent).all storable = true := by decide +kernel
  refine iff_of_true ?_ htexts
  rintro ⟨last, hlast, -⟩
  cases hlast

/-- A release after the instant of the acquisition. -/
theorem agree_of_run_release : acquiredAt1000.Agreeable 1060 (.release claimOfAgent 1) :=
  (agree_of_run acquiredAt1000_reachable 1060 (.release claimOfAgent 1)).mp (by
    unfold Agree
    decide +kernel)

/-- A release at the instant of the acquisition violates a constraint of the table. -/
theorem release_at_acquisition :
    ¬ ∀ w, system.Reachable w → ∀ now call, w.Agree now call := by
  intro h
  have hagree := h acquiredAt1000 acquiredAt1000_reachable.of_restrict 1000 (.release claimOfAgent 1)
  revert hagree
  unfold Agree
  decide +kernel

end LeaseStores

end Premise.Postgres
