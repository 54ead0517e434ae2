import Premise.Js.JsonRead
import Premise.RuntimeCore.PremiseGuard

/-!
# Proofs: `executePremiseGuard`

What the checks let through, one lemma for each loop: the receipts that are selected stand for the critical
premises in order, and the receipts that are observed are the selected ones with the same terms.
-/

namespace Premise.RuntimeCore

open Collections Js

theorem stringifyOptional_injective : Function.Injective stringifyOptional := by
  intro v w h
  cases v with
  | none =>
    cases w with
    | none => rfl
    | some w => cases h
  | some v =>
    cases w with
    | none => cases h
    | some w =>
      have hread := parseJson_stringify v.property
      rw [show v.val.stringify = w.val.stringify from Option.some.inj h, parseJson_stringify w.property] at hread
      exact congrArg some (Subtype.ext (Option.some.inj hread).symm)

variable {receipts : List PremiseGuardReceipt} {receipt : PremiseGuardReceipt}

theorem of_receiptsByPremise {premiseId : String} (h : (receiptsByPremise receipts).get? premiseId = some receipt) :
    receipt.premiseId = premiseId ∧ receipt ∈ receipts := by
  obtain ⟨r, hr, heq⟩ := List.mem_map.mp (OrderedMap.mem_of_mem_ofList ((OrderedMap.get?_eq_some_iff _).mp h))
  cases heq
  exact ⟨rfl, hr⟩

/-- The artifact, the migration, the lease and the alerts of two receipts are the same. -/
structure PremiseGuardReceipt.SameTerms (receipt prior : PremiseGuardReceipt) : Prop where
  artifactDigest : receipt.artifactDigest = prior.artifactDigest
  migration : receipt.migration = prior.migration
  lease : receipt.lease = prior.lease
  alerts : receipt.alerts = prior.alerts

theorem sameTerms_of_termsDiffer {prior : PremiseGuardReceipt} (h : termsDiffer receipt prior = false) :
    receipt.SameTerms prior := by
  simp only [termsDiffer, Bool.or_eq_false_iff, decide_eq_false_iff_not, not_not] at h
  obtain ⟨⟨⟨hartifact, hmigration⟩, hlease⟩, halerts⟩ := h
  exact ⟨stringifyOptional_injective hartifact, stringifyOptional_injective hmigration,
    stringifyOptional_injective hlease, stringifyOptional_injective halerts⟩

/-- An observed receipt that is evidence for a premise, after the previous ones failed. -/
structure Evidences (previous : List PremiseGuardReceipt) (premiseId : String) (receipt : PremiseGuardReceipt) : Prop where
  premise : receipt.premiseId = premiseId
  fresh : receipt.state = "FRESH"
  valid : receipt.valid = .boolean true
  not_revoked : receipt.revoked ≠ some true
  unchanged : ∃ failed ∈ previous, failed.premiseId = premiseId ∧ receipt.SameTerms failed

theorem observe_evidences {previous : List PremiseGuardReceipt}
    {byPremise found : OrderedMap String PremiseGuardReceipt}
    (hinv : ∀ premiseId receipt, byPremise.get? premiseId = some receipt → Evidences previous premiseId receipt)
    (h : observe (receiptsByPremise previous) byPremise receipts = some found) :
    ∀ premiseId receipt, found.get? premiseId = some receipt → Evidences previous premiseId receipt := by
  induction receipts generalizing byPremise with
  | nil =>
    cases h
    exact hinv
  | cons next rest ih =>
    rw [observe] at h
    split_ifs at h with hunusable
    cases hprior : (receiptsByPremise previous).get? next.premiseId with
    | none => rw [hprior] at h; cases h
    | some prior =>
      rw [hprior] at h
      dsimp only at h
      split_ifs at h with hdiffer
      refine ih ?_ h
      intro premiseId receipt hget
      rw [OrderedMap.get?_set] at hget
      split_ifs at hget with hid
      · cases hget
        obtain ⟨hfailed, hmem⟩ := of_receiptsByPremise hprior
        simp only [observedUnusable, Bool.or_eq_true, decide_eq_true_eq, not_or, not_not] at hunusable
        exact ⟨hid.symm, hunusable.1.1.1.1.2, hunusable.1.1.1.1.1.1.2, hunusable.1.1.1.2,
          prior, hmem, hfailed.trans hid.symm, sameTerms_of_termsDiffer (Bool.eq_false_iff.mpr hdiffer)⟩
      · exact hinv premiseId receipt hget

theorem forall₂_of_mapM {α β : Type} {f : α → Option β} {l : List α} {found : List β} (h : l.mapM f = some found) :
    List.Forall₂ (fun a b => f a = some b) l found := by
  induction l generalizing found with
  | nil =>
    cases h
    exact .nil
  | cons a l ih =>
    rw [List.mapM_cons] at h
    obtain ⟨b, hb, h⟩ := Option.bind_eq_some_iff.mp h
    obtain ⟨rest, hrest, h⟩ := Option.bind_eq_some_iff.mp h
    cases h
    exact .cons hb (ih hrest)

theorem completeObservedReceipts_evidences {premiseIds : List String} {receipts : Option (List PremiseGuardReceipt)}
    {previous observed : List PremiseGuardReceipt}
    (h : completeObservedReceipts premiseIds receipts previous = some observed) :
    List.Forall₂ (Evidences previous) premiseIds observed := by
  unfold completeObservedReceipts at h
  obtain ⟨receipts, -, h⟩ := Option.bind_eq_some_iff.mp h
  split_ifs at h
  obtain ⟨byPremise, hobserve, h⟩ := Option.bind_eq_some_iff.mp h
  have hempty : ∀ premiseId receipt, (∅ : OrderedMap String PremiseGuardReceipt).get? premiseId = some receipt →
      Evidences previous premiseId receipt := by
    intro premiseId receipt hget
    rw [OrderedMap.get?_empty] at hget
    cases hget
  have hevidences := observe_evidences hempty hobserve
  exact (forall₂_of_mapM h).imp fun premiseId receipt hget => hevidences premiseId receipt hget

/-! ## Selected receipts -/

variable {T E : Type} {dateParse : String → Option Int}

/-- A receipt carries a lease that is not invalidated and expires after an instant. -/
structure Carries (dateParse : String → Option Int) (now : Int) (receipt : PremiseGuardReceipt) (lease : GuardLease)
    (value : JsonValue) (expiry : Int) : Prop where
  held : receipt.lease = some value
  leaseId : value.val.field "leaseId" = some (.string lease.leaseId)
  fencingToken : value.val.field "fencingToken" = some (.string lease.fencingToken)
  not_invalidated : value.val.field "invalidated" ≠ some (.boolean true)
  expiresAt : ∃ text, value.val.field "expiresAt" = some (.string text) ∧ dateParse text = some expiry
  unexpired : now < expiry

theorem carries_of_carriesLease {now : Int} {lease : GuardLease}
    (h : carriesLease dateParse now receipt lease = true) :
    ∃ value expiry, Carries dateParse now receipt lease value expiry := by
  unfold carriesLease at h
  cases hvalue : receipt.lease with
  | none => rw [hvalue] at h; cases h
  | some value =>
    rw [hvalue] at h
    simp only [Bool.and_eq_true, decide_eq_true_eq] at h
    obtain ⟨⟨⟨hleaseId, htoken⟩, hvalid⟩, hexpiry⟩ := h
    split at hexpiry
    · rename_i text htext
      cases hparse : dateParse text with
      | none => rw [hparse] at hexpiry; cases hexpiry
      | some expiry =>
        rw [hparse] at hexpiry
        exact ⟨value, expiry, hvalue, hleaseId, htoken, hvalid, ⟨text, htext, hparse⟩, by simpa using hexpiry⟩
    · cases hexpiry

/-- A receipt that is selected for a premise at an instant. -/
structure Admits (dateParse : String → Option Int) (intent : PremiseGuardIntent) (receipts : List PremiseGuardReceipt)
    (now : Int) (premiseId : String) (receipt : PremiseGuardReceipt) : Prop where
  premise : receipt.premiseId = premiseId
  supplied : receipt ∈ receipts
  fresh : receipt.state = "FRESH"
  valid : receipt.valid = .boolean true
  lease : ∀ lease ∈ intent.lease, ∃ value expiry, Carries dateParse now receipt lease value expiry

variable {now : Nat → Int} {intent : PremiseGuardIntent}

theorem admits_of_selectReceipts (hstates : ∀ receipt ∈ receipts, receipt.state ∈ guardStates) {i : Nat}
    {premises : List String} {selected : List PremiseGuardReceipt}
    (h : selectReceipts (T := T) dateParse intent (receiptsByPremise receipts) now i premises = .ok selected) :
    selected.map PremiseGuardReceipt.premiseId = premises ∧
      ∀ k receipt, selected[k]? = some receipt → Admits dateParse intent receipts (now (i + k)) receipt.premiseId receipt := by
  induction premises generalizing i selected with
  | nil =>
    cases h
    exact ⟨rfl, fun k receipt hget => by cases hget⟩
  | cons premiseId premises ih =>
    rw [selectReceipts] at h
    cases hreceipt : (receiptsByPremise receipts).get? premiseId with
    | none => rw [hreceipt] at h; cases h
    | some receipt =>
      rw [hreceipt] at h
      dsimp only at h
      split_ifs at h with hinvalid hstale hlease
      obtain ⟨hid, hmem⟩ := of_receiptsByPremise hreceipt
      cases hrest : selectReceipts (T := T) dateParse intent (receiptsByPremise receipts) now (i + 1) premises with
      | error result => rw [hrest] at h; cases h
      | ok rest =>
        rw [hrest] at h
        cases h
        obtain ⟨hmap, hadmits⟩ := ih hrest
        refine ⟨by rw [List.map_cons, hmap, hid], fun k found hget => ?_⟩
        cases k with
        | zero =>
          cases hget
          have hstate := hstates receipt hmem
          simp only [guardStates, List.mem_cons, List.not_mem_nil, or_false] at hstate
          simp only [Bool.or_eq_true, decide_eq_true_eq, not_or, not_not] at hinvalid
          refine ⟨rfl, hmem, by tauto, hinvalid.1.1, fun lease hintent => ?_⟩
          unfold receiptLeaseUsable at hlease
          rw [hintent, Option.all_some] at hlease
          exact carries_of_carriesLease (by simpa using hlease)
        | succ k =>
          rw [List.getElem?_cons_succ] at hget
          have hnext := hadmits k found hget
          rwa [show i + 1 + k = i + (k + 1) by omega] at hnext

/-- The adapter can commit for an intent. -/
structure Supports (capabilities : List String) (intent : PremiseGuardIntent) : Prop where
  required : intent.requiredCapability ∈ capabilities
  idempotent : "IDEMPOTENCY_KEY" ∈ capabilities
  conditional : "CAS" ∈ capabilities ∨ "CONDITIONAL_ACTION" ∈ capabilities
  fenced : intent.lease.isSome = true → "FENCED_LEASE" ∈ capabilities

theorem nodup_of_length_unique {l : List String} (h : (unique l).length = l.length) : l.Nodup := by
  have hsub := (unique_nodup l).subperm (fun a ha => mem_unique.mp ha)
  exact (hsub.perm_of_length_le h.ge).nodup_iff.mp (unique_nodup l)

theorem of_admittedReceipts {selected : List PremiseGuardReceipt} {capabilities : List String}
    (h : admittedReceipts (T := T) dateParse intent receipts capabilities now = .ok selected) :
    Supports capabilities intent ∧ selected.map PremiseGuardReceipt.premiseId = intent.criticalPremises ∧
      intent.criticalPremises.Nodup ∧ ∀ k receipt, selected[k]? = some receipt →
        Admits dateParse intent receipts (now k) receipt.premiseId receipt := by
  unfold admittedReceipts at h
  split_ifs at h with _ _ hunique _ hmalformed hcapable
  have hstates : ∀ receipt ∈ receipts, receipt.state ∈ guardStates := by
    intro receipt hmem
    by_contra hstate
    refine hmalformed (List.any_eq_true.mpr ⟨receipt, hmem, ?_⟩)
    simp [hstate]
  have hnodup := nodup_of_length_unique (not_not.mp hunique)
  obtain ⟨hmap, hadmits⟩ := admits_of_selectReceipts hstates h
  simp only [Bool.or_eq_true, decide_eq_true_eq, not_or, not_not, Bool.not_eq_true', Bool.not_eq_false,
    Bool.and_eq_true, not_and] at hcapable
  refine ⟨⟨hcapable.1.1.1, hcapable.1.1.2, ?_, hcapable.2⟩, hmap, hnodup, fun k receipt hget => ?_⟩
  · simpa using hcapable.1.2
  · simpa using hadmits k receipt hget

theorem observedReceipts_of_selectReceipts {byPremise : OrderedMap String PremiseGuardReceipt} {i : Nat}
    {premises : List String} {result : PremiseGuardResult T}
    (h : selectReceipts dateParse intent byPremise now i premises = .error result) :
    result.observedReceipts = none := by
  induction premises generalizing i with
  | nil => cases h
  | cons premiseId premises ih =>
    rw [selectReceipts] at h
    split at h
    · obtain rfl := Except.error.inj h
      rfl
    · split_ifs at h
      · obtain rfl := Except.error.inj h
        rfl
      · obtain rfl := Except.error.inj h
        rfl
      · obtain rfl := Except.error.inj h
        rfl
      · cases hrest : selectReceipts (T := T) dateParse intent byPremise now (i + 1) premises with
        | error refusal =>
          rw [hrest] at h
          obtain rfl := Except.error.inj h
          exact ih hrest
        | ok rest => rw [hrest] at h; cases h

theorem observedReceipts_of_admittedReceipts {capabilities : List String} {result : PremiseGuardResult T}
    (h : admittedReceipts dateParse intent receipts capabilities now = .error result) :
    result.observedReceipts = none := by
  unfold admittedReceipts at h
  split_ifs at h
  all_goals first
    | exact observedReceipts_of_selectReceipts h
    | (obtain rfl := Except.error.inj h; rfl)

end Premise.RuntimeCore
