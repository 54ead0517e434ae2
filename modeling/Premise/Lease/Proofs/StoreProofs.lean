import Premise.Lease.Spec

/-!
# Proofs: a service that acts on cells keeps the promises of leases
-/

namespace Premise.Lease

open Control

def LeaseCell.Issued (cell : LeaseCell) : Prop :=
  ∀ lease ∈ cell.lease, lease.fencingToken ≤ cell.counter

/-- `identity` has been handed out, and is not, or no longer, the identity of a lease in force. -/
structure LeaseCell.Dead (cell : LeaseCell) (observed : Option Int) (identity : LeaseIdentity) :
    Prop where
  issued : identity.fencingToken ≤ cell.counter
  ended : ∀ lease ∈ cell.lease, lease.identity = identity →
    ∃ t ∈ observed, lease.expiresAt ≤ t

variable {α : Type} {now : Int} {call : LeaseCall α} {cell cell' : LeaseCell} {verdict : Verdict}

theorem CellStep.issued (h : CellStep now call cell cell' verdict) (hc : cell.Issued) : cell'.Issued := by
  cases h with
  | refuse => exact hc
  | expire hlease hexpired => exact nofun
  | grant hfree hcall htoken =>
    intro lease hmem
    cases hmem
    exact le_of_eq htoken
  | confirm hlease hlive hid hcall => exact hc
  | @renew lease renewed hlease hlive hid hsame hlater hcall =>
    intro current hmem
    cases hmem
    have htoken : renewed.fencingToken = lease.fencingToken :=
      congrArg LeaseIdentity.fencingToken hsame
    show renewed.fencingToken ≤ cell.counter
    rw [htoken]
    exact hc lease hlease
  | release hlease hlive hid hcall => exact nofun

theorem CellStep.counter_mono (h : CellStep now call cell cell' verdict) : cell.counter ≤ cell'.counter := by
  cases h with
  | grant hfree hcall htoken =>
    show cell.counter ≤ cell.counter + 1
    omega
  | _ => exact le_refl _

theorem CellStep.dead (h : CellStep now call cell cell' verdict) {observed : Option Int}
    (hmono : ∀ t ∈ observed, t ≤ now) {identity : LeaseIdentity} (hd : cell.Dead observed identity) :
    cell'.Dead (some now) identity ∧ (call.identity = some identity → verdict = .refused) := by
  have hended : ∀ lease ∈ cell.lease, lease.identity = identity → lease.expiresAt ≤ now := by
    intro lease hmem hid
    obtain ⟨t, ht, hle⟩ := hd.ended lease hmem hid
    exact le_trans hle (hmono t ht)
  have hkept : cell.Dead (some now) identity :=
    ⟨hd.issued, fun lease hmem hid => ⟨now, rfl, hended lease hmem hid⟩⟩
  cases h with
  | refuse => exact ⟨hkept, fun _ => rfl⟩
  | expire hlease hexpired => exact ⟨⟨hd.issued, nofun⟩, fun _ => rfl⟩
  | @grant lease hfree hcall htoken =>
    refine ⟨⟨?_, fun current hmem hid => ?_⟩, fun hid => ?_⟩
    · show identity.fencingToken ≤ cell.counter + 1
      have := hd.issued
      omega
    · obtain rfl : lease = current := Option.some.inj hmem
      have hissued := hd.issued
      have hsame : lease.fencingToken = identity.fencingToken :=
        congrArg LeaseIdentity.fencingToken hid
      omega
    · rw [hcall] at hid
      cases hid
  | confirm hlease hlive hid hcall =>
    refine ⟨hkept, fun hcall => ?_⟩
    have := hended _ hlease (Option.some.inj (hid.symm.trans hcall))
    omega
  | renew hlease hlive hid hsame hlater hcall =>
    have hother : identity ≠ _ := fun heq => by
      have := hended _ hlease heq.symm
      omega
    refine ⟨⟨hd.issued, fun renewed hmem heq => ?_⟩, fun hcall => ?_⟩
    · cases hmem
      exact absurd (heq.symm.trans hsame) hother
    · exact absurd (Option.some.inj (hcall.symm.trans hid)) hother
  | release hlease hlive hid hcall =>
    refine ⟨⟨hd.issued, nofun⟩, fun hcall => ?_⟩
    have := hended _ hlease (Option.some.inj (hid.symm.trans hcall))
    omega

/-! ## Runs -/

namespace LeaseService

variable {σ ρ β γ : Type} {S : LeaseService σ α ρ β} {cell : σ → String × String → LeaseCell}
  {config : σ → γ} {proper : σ → Prop} {s s' : σ}

section

variable (h : S.ActsOn cell config proper)
include h

theorem ActsOn.issued (hs : S.system.Reachable s) (scope : String × String) : (cell s scope).Issued := by
  refine hs.invariant (fun s => (cell s scope).Issued) (fun s hinit => ?_)
    (fun s i s' hc hstep => ?_)
  · rw [(h.init s hinit).2 scope]
    exact nofun
  · obtain rfl : s' = _ := hstep
    rcases h.step s i.1 i.2 with ⟨hcell, -, -⟩ | ⟨now, verdict, -, -, hother, hcellStep, -⟩
    · rw [hcell]
      exact hc
    · by_cases hscope : scope = i.2.scope
      · rw [hscope] at hc ⊢
        exact hcellStep.issued hc
      · rw [hother scope hscope]
        exact hc

theorem ActsOn.counter_mono (hs : S.Later s s')
    (scope : String × String) : (cell s scope).counter ≤ (cell s' scope).counter := by
  refine hs.invariant (fun s' => (cell s scope).counter ≤ (cell s' scope).counter)
    (fun s' hinit => ?_) (fun s' i s'' hc hstep => ?_)
  · obtain rfl : s' = s := hinit
    exact le_refl _
  · obtain rfl : s'' = _ := hstep
    refine le_trans hc ?_
    rcases h.step s' i.1 i.2 with ⟨hcell, -, -⟩ | ⟨now, verdict, -, -, hother, hcellStep, -⟩
    · rw [hcell]
    · by_cases hscope : scope = i.2.scope
      · rw [hscope]
        exact hcellStep.counter_mono
      · rw [hother scope hscope]

theorem ActsOn.dead_step {scope : String × String}
    {identity : LeaseIdentity} (hd : (cell s scope).Dead (S.observed s) identity) (reading : ρ)
    (call : LeaseCall α) :
    (cell (S.perform s reading call).1 scope).Dead (S.observed (S.perform s reading call).1) identity ∧
      (call.scope = scope → call.identity = some identity → S.answer s reading call = .refused) := by
  rcases h.step s reading call with ⟨hcell, hobserved, hrefused⟩ |
    ⟨now, verdict, hobserved, hmono, hother, hcellStep, hanswer⟩
  · rw [hcell, hobserved]
    exact ⟨hd, fun _ _ => hrefused⟩
  · rw [hobserved]
    by_cases hscope : scope = call.scope
    · subst hscope
      obtain ⟨hdead, hrefused⟩ := hcellStep.dead hmono hd
      refine ⟨hdead, fun _ hid => ?_⟩
      rcases hanswer with hanswer | hanswer
      · exact hanswer.trans (hrefused hid)
      · exact hanswer
    · rw [hother scope hscope]
      refine ⟨⟨hd.issued, fun lease hmem hid => ?_⟩, fun hsame => absurd hsame.symm hscope⟩
      obtain ⟨t, ht, hle⟩ := hd.ended lease hmem hid
      exact ⟨now, rfl, le_trans hle (hmono t ht)⟩

theorem ActsOn.over {scope : String × String}
    {identity : LeaseIdentity} (hd : (cell s scope).Dead (S.observed s) identity) :
    S.Over s scope identity := by
  intro s' hs' reading call hscope hid
  have hdead : (cell s' scope).Dead (S.observed s') identity := by
    refine hs'.invariant (fun s' => (cell s' scope).Dead (S.observed s') identity)
      (fun s' hinit => ?_) (fun s' i s'' hc hstep => ?_)
    · obtain rfl : s' = s := hinit
      exact hd
    · obtain rfl : s'' = _ := hstep
      exact (h.dead_step hc i.1 i.2).1
  exact (h.dead_step hdead reading call).2 hscope hid

theorem ActsOn.granted {reading : ρ} {call : LeaseCall α}
    {lease : ValidationLease} (hgranted : S.answer s reading call = .granted lease) :
    (cell (S.perform s reading call).1 call.scope).lease = some lease ∧
      (cell (S.perform s reading call).1 call.scope).counter = lease.fencingToken ∧
      lease.fencingToken = (cell s call.scope).counter + 1 := by
  rcases h.step s reading call with ⟨-, -, hrefused⟩ |
    ⟨now, verdict, -, -, -, hcellStep, hanswer | hanswer⟩
  · rw [hrefused] at hgranted
    cases hgranted
  · rw [hgranted] at hanswer
    subst hanswer
    generalize cell (S.perform s reading call).1 call.scope = cell' at hcellStep ⊢
    cases hcellStep with
    | grant hfree hcall htoken => exact ⟨rfl, htoken.symm, htoken⟩
  · rw [hanswer] at hgranted
    cases hgranted

theorem ActsOn.accepted {reading : ρ} {call : LeaseCall α}
    (haccepted : S.answer s reading call = .accepted) :
    ∃ lease now, (cell s call.scope).lease = some lease ∧ call.identity = some lease.identity ∧
      S.observed (S.perform s reading call).1 = some now ∧ (∀ t ∈ S.observed s, t ≤ now) ∧
      now < lease.expiresAt ∧ ((∃ claim token, call = .release claim token) →
        cell (S.perform s reading call).1 call.scope = ⟨none, (cell s call.scope).counter⟩) := by
  rcases h.step s reading call with ⟨-, -, hrefused⟩ |
    ⟨now, verdict, hobserved, hmono, -, hcellStep, hanswer | hanswer⟩
  · rw [hrefused] at haccepted
    cases haccepted
  · rw [haccepted] at hanswer
    subst hanswer
    generalize cell (S.perform s reading call).1 call.scope = cell' at hcellStep ⊢
    cases hcellStep with
    | confirm hlease hlive hid hcall =>
      refine ⟨_, now, hlease, hid, hobserved, hmono, hlive, fun hrelease => ?_⟩
      obtain ⟨claim, token, rfl⟩ := hcall
      obtain ⟨claim', token', heq⟩ := hrelease
      cases heq
    | renew hlease hlive hid hsame hlater hcall =>
      refine ⟨_, now, hlease, hid, hobserved, hmono, hlive, fun hrelease => ?_⟩
      obtain ⟨claim, token, term, rfl⟩ := hcall
      obtain ⟨claim', token', heq⟩ := hrelease
      cases heq
    | release hlease hlive hid hcall =>
      exact ⟨_, now, hlease, hid, hobserved, hmono, hlive, fun _ => rfl⟩
  · rw [hanswer] at haccepted
    cases haccepted

theorem ActsOn.dead_of_expired (hs : S.system.Reachable s)
    {scope : String × String} {lease : ValidationLease} (hlease : (cell s scope).lease = some lease)
    {reading : ρ} {call : LeaseCall α} {now : Int}
    (hnow : S.observed (S.perform s reading call).1 = some now) (hexpired : lease.expiresAt ≤ now) :
    (cell (S.perform s reading call).1 scope).Dead (some now) lease.identity ∧
      (call.scope = scope → call.identity = some lease.identity →
        S.answer s reading call = .refused) := by
  have hissued := h.issued hs scope lease hlease
  -- dead as of `now`: the lease in the cell is `lease` itself
  have hdead : (cell s scope).Dead (some now) lease.identity := by
    refine ⟨hissued, fun current hmem _ => ⟨now, rfl, ?_⟩⟩
    obtain rfl := Option.some.inj (hlease.symm.trans hmem)
    exact hexpired
  rcases h.step s reading call with ⟨hcell, hobserved, hrefused⟩ |
    ⟨now', verdict, hobserved, hmono, hother, hcellStep, hanswer⟩
  · rw [hcell]
    exact ⟨hdead, fun _ _ => hrefused⟩
  · obtain rfl := Option.some.inj (hobserved.symm.trans hnow)
    by_cases hscope : scope = call.scope
    · subst hscope
      have hle : ∀ t ∈ some now', t ≤ now' := by
        rintro t ht
        rw [Option.some.inj ht]
      obtain ⟨hdead', hrefused⟩ := hcellStep.dead hle hdead
      refine ⟨hdead', fun _ hid => ?_⟩
      rcases hanswer with hanswer | hanswer
      · exact hanswer.trans (hrefused hid)
      · exact hanswer
    · rw [hother scope hscope]
      exact ⟨hdead, fun hsame => absurd hsame.symm hscope⟩

theorem ActsOn.outcomes_congr (scope : String × String)
    (history : List (ρ × LeaseCall α)) : ∀ (s s' : σ) (last : Option Int),
    proper s → proper s' → (∀ t ∈ S.observed s, ∃ t' ∈ last, t ≤ t') → (∀ t ∈ S.observed s', ∃ t' ∈ last, t ≤ t') →
    config s = config s' → cell s scope = cell s' scope → S.Steady last history →
    (S.outcomes s history).filter (fun o => o.1.scope = scope)
      = S.outcomes s' (history.filter (fun i => i.2.scope = scope)) := by
  induction history with
  | nil => exact fun _ _ _ _ _ _ _ _ _ _ => rfl
  | cons i history ih =>
    obtain ⟨reading, call⟩ := i
    intro s s' last hproper hproper' hs hs' hconfig hcell hsteady
    obtain ⟨now, htime, hvalid, hle, hrest⟩ := hsteady
    have hbound : ∀ w, (∀ t ∈ S.observed w, ∃ t' ∈ last, t ≤ t') → ∀ t ∈ S.observed w, t ≤ now := by
      intro w hw t ht
      obtain ⟨t', ht', hlt⟩ := hw t ht
      exact le_trans hlt (hle t' ht')
    have hafter : ∀ w, (∀ t ∈ S.observed w, ∃ t' ∈ last, t ≤ t') →
        ∀ t ∈ S.observed (S.perform w reading call).1, ∃ t' ∈ some now, t ≤ t' := by
      intro w hw t ht
      rcases h.reads w reading call now htime t ht with rfl | hold
      · exact ⟨t, rfl, le_refl t⟩
      · exact ⟨now, rfl, hbound w hw t hold⟩
    have hweaken : ∀ w, (∀ t ∈ S.observed w, ∃ t' ∈ last, t ≤ t') → ∀ t ∈ S.observed w, ∃ t' ∈ some now, t ≤ t' :=
      fun w hw t ht => ⟨now, rfl, hbound w hw t ht⟩
    rw [outcomes]
    by_cases hscope : call.scope = scope
    · subst hscope
      obtain ⟨hout, hcell'⟩ := h.congr s s' reading call now hproper hproper' htime hvalid (hbound s hs)
        (hbound s' hs') hconfig hcell
      rw [List.filter_cons_of_pos (by simp), List.filter_cons_of_pos (by simp), outcomes, hout]
      rw [ih _ _ (some now) (h.stays s reading call hproper) (h.stays s' reading call hproper')
        (hafter s hs) (hafter s' hs')
        (by rw [h.kept, h.kept, hconfig]) hcell' hrest]
    · rw [List.filter_cons_of_neg (by simpa using hscope), List.filter_cons_of_neg (by simpa using hscope)]
      have hkept : cell (S.perform s reading call).1 scope = cell s scope := by
        rcases h.step s reading call with ⟨hsame, -, -⟩ | ⟨now', verdict, -, -, hother, -, -⟩
        · rw [hsame]
        · exact hother scope (Ne.symm hscope)
      exact ih _ _ (some now) (h.stays s reading call hproper) hproper' (hafter s hs) (hweaken s' hs') (by rw [h.kept, hconfig])
        (by rw [hkept, hcell]) hrest

theorem ActsOn.safe : S.Safe where
  one_valid := by
    intro s hs reading claim token claim' token' hscope haccepted haccepted'
    obtain ⟨lease, -, hlease, hid, -⟩ := h.accepted haccepted
    obtain ⟨lease', -, hlease', hid', -⟩ := h.accepted haccepted'
    have hsame : lease = lease' := by
      have heq : (LeaseCall.validate (α := α) claim token).scope
          = (LeaseCall.validate (α := α) claim' token').scope := hscope
      rw [heq] at hlease
      exact Option.some.inj (hlease.symm.trans hlease')
    subst hsame
    have heq := Option.some.inj (hid.trans hid'.symm)
    injection heq with howner hleaseId htoken
    rw [howner, hleaseId, htoken]
  tokens_increase := by
    intro s hs reading call lease hgranted s' hs' reading' call' lease' hscope hgranted'
    obtain ⟨-, hcounter, -⟩ := h.granted hgranted
    obtain ⟨-, -, htoken⟩ := h.granted hgranted'
    have hmono := h.counter_mono hs' call.scope
    rw [hscope] at htoken
    omega
  released_over := by
    intro s hs reading claim token haccepted
    obtain ⟨lease, now, hlease, hid, -, -, -, hreleased⟩ := h.accepted haccepted
    have hcell := hreleased ⟨claim, token, rfl⟩
    refine h.over ?_
    have hcell' : cell (S.perform s reading (.release claim token)).1 claim.scope = _ := hcell
    rw [hcell']
    refine ⟨?_, nofun⟩
    have hissued := h.issued hs _ lease hlease
    have hsame := Option.some.inj hid
    rw [hsame]
    exact hissued
  superseded_over := by
    intro s hs reading call lease hgranted s' hs' reading' call' lease' hscope hgranted'
    obtain ⟨-, hcounter, -⟩ := h.granted hgranted
    obtain ⟨hlease', hcounter', htoken'⟩ := h.granted hgranted'
    have hmono := h.counter_mono hs' call.scope
    rw [hscope] at hlease' hcounter' htoken'
    refine h.over ⟨?_, fun current hmem hid => ?_⟩
    · show lease.fencingToken ≤ _
      omega
    · obtain rfl := Option.some.inj (hlease'.symm.trans hmem)
      have hsame : lease'.fencingToken = lease.fencingToken :=
        congrArg LeaseIdentity.fencingToken hid
      omega
  expired_over := by
    intro s hs scope lease hstored reading call hexpired
    obtain ⟨now, hnow, hle⟩ := hexpired
    rw [h.stored] at hstored
    obtain ⟨hdead, hrefused⟩ := h.dead_of_expired hs hstored hnow hle
    refine ⟨hrefused, h.over ?_⟩
    rw [hnow]
    exact hdead
  independent := by
    intro s hs history hsteady scope
    have hproper : proper s := by
      refine hs.invariant proper (fun s hinit => (h.init s hinit).1) (fun s i s' hp hstep => ?_)
      obtain rfl : s' = _ := hstep
      exact h.stays s i.1 i.2 hp
    exact h.outcomes_congr scope history s s (S.observed s) hproper hproper
      (fun t ht => ⟨t, ht, le_refl t⟩) (fun t ht => ⟨t, ht, le_refl t⟩) rfl rfl hsteady

end

end LeaseService

end Premise.Lease

/-!
# Proofs: the in-memory lease store acts on cells
-/

namespace Premise.Lease

open Collections Control Js

theorem scopeKey_injective {scope scope' : String × String}
    (h : scopeKey scope.1 scope.2 = scopeKey scope'.1 scope'.2) : scope = scope' := by
  have heq := stringify_strings_injective h
  injection heq with htenant hrest
  injection hrest with hresource
  exact Prod.ext htenant hresource

theorem identityReason_eq_none {current : ValidationLease} {claim : LeaseClaim}
    {fencingToken : Int} (h : identityReason current claim fencingToken = none) :
    current.identity = ⟨claim.owner, claim.leaseId, fencingToken⟩ := by
  unfold identityReason at h
  split_ifs at h with htoken howner hleaseId
  have htoken := not_not.mp htoken
  have howner := not_not.mp howner
  have hleaseId := not_not.mp hleaseId
  rw [ValidationLease.identity, htoken, howner, hleaseId]

namespace InMemoryValidationLeaseStore

variable {s s₁ : InMemoryValidationLeaseStore} {now : Int}

def cell (s : InMemoryValidationLeaseStore) (scope : String × String) : LeaseCell :=
  ⟨s.leases.get? (scopeKey scope.1 scope.2), (s.fencingCounters.get? (scopeKey scope.1 scope.2)).getD 0⟩

/-- `s'` differs from `s` in the cell of `scope` alone, where it has `cell'`. -/
structure Moves (s s' : InMemoryValidationLeaseStore) (scope : String × String)
    (cell' : LeaseCell) : Prop where
  observed : s'.lastObservedAt = s.lastObservedAt
  own : s'.cell scope = cell'
  other : ∀ scope', scope' ≠ scope → s'.cell scope' = s.cell scope'

theorem moves_refl (s : InMemoryValidationLeaseStore) (scope : String × String) :
    Moves s s scope (s.cell scope) := ⟨rfl, rfl, fun _ _ => rfl⟩

theorem moves_erase (s : InMemoryValidationLeaseStore) (scope : String × String) :
    Moves s { s with leases := s.leases.erase (scopeKey scope.1 scope.2) } scope
      ⟨none, (s.cell scope).counter⟩ where
  observed := rfl
  own := by
    rw [cell, OrderedMap.get?_erase_self]
    rfl
  other := by
    intro scope' hne
    have hkey : scopeKey scope'.1 scope'.2 ≠ scopeKey scope.1 scope.2 :=
      fun h => hne (scopeKey_injective h)
    unfold cell
    rw [OrderedMap.get?_erase_of_ne _ hkey]

theorem moves_set (s : InMemoryValidationLeaseStore) (scope : String × String)
    (lease : ValidationLease) :
    Moves s { s with leases := s.leases.set (scopeKey scope.1 scope.2) lease } scope
      ⟨some lease, (s.cell scope).counter⟩ where
  observed := rfl
  own := by
    rw [cell, OrderedMap.get?_set_self]
    rfl
  other := by
    intro scope' hne
    have hkey : scopeKey scope'.1 scope'.2 ≠ scopeKey scope.1 scope.2 :=
      fun h => hne (scopeKey_injective h)
    unfold cell
    rw [OrderedMap.get?_set_of_ne _ _ hkey]

theorem moves_grant (s : InMemoryValidationLeaseStore) (scope : String × String)
    (lease : ValidationLease) (counter : Int) :
    Moves s { s with
      leases := s.leases.set (scopeKey scope.1 scope.2) lease
      fencingCounters := s.fencingCounters.set (scopeKey scope.1 scope.2) counter } scope
      ⟨some lease, counter⟩ where
  observed := rfl
  own := by
    rw [cell, OrderedMap.get?_set_self, OrderedMap.get?_set_self]
    rfl
  other := by
    intro scope' hne
    have hkey : scopeKey scope'.1 scope'.2 ≠ scopeKey scope.1 scope.2 :=
      fun h => hne (scopeKey_injective h)
    unfold cell
    rw [OrderedMap.get?_set_of_ne _ _ hkey, OrderedMap.get?_set_of_ne _ _ hkey]

theorem Moves.trans {s2 : InMemoryValidationLeaseStore} {scope : String × String}
    {cell1 cell2 : LeaseCell} (h : Moves s s₁ scope cell1) (h' : Moves s₁ s2 scope cell2) :
    Moves s s2 scope cell2 where
  observed := h'.observed.trans h.observed
  own := h'.own
  other := fun scope' hne => (h'.other scope' hne).trans (h.other scope' hne)

theorem observeClock_ok (h : s.observeClock now = .ok s₁) :
    s₁ = { s with lastObservedAt := some now } ∧ ∀ t ∈ s.lastObservedAt, t ≤ now := by
  unfold observeClock at h
  split_ifs at h with hvalid hlast
  refine ⟨(Except.ok.inj h).symm, fun t ht => ?_⟩
  rw [Option.mem_def] at ht
  simpa [ht] using hlast

theorem observeClock_of_le (hvalid : validTime now = true) (hle : ∀ t ∈ s.lastObservedAt, t ≤ now) :
    s.observeClock now = .ok { s with lastObservedAt := some now } := by
  unfold observeClock
  rw [if_neg (by simp [hvalid]), if_neg ?_]
  cases hlast : s.lastObservedAt with
  | none => simp
  | some t =>
    have := hle t hlast
    simpa using this

def performAt (s : InMemoryValidationLeaseStore) (now : Int) :
    LeaseCall Int → InMemoryValidationLeaseStore × Except JsError StoreResult
  | .acquire claim expiresAt =>
    if !validAcquireRequest claim expiresAt now then (s, .ok (.rejected .invalidInput))
    else
      match s.active claim.key now with
      | (s, some current) => (s, .ok (.held current))
      | (s, none) =>
        match s.nextToken claim.key with
        | .error err => (s, .error err)
        | .ok (s, fencingToken) =>
          let lease : ValidationLease := ⟨claim, fencingToken, now, now, expiresAt⟩
          ({ s with leases := s.leases.set claim.key lease }, .ok (.acquired lease))
  | .renew claim fencingToken expiresAt =>
    if !validRenewRequest claim fencingToken expiresAt now then (s, .ok (.rejected .invalidInput))
    else
      s.withLease claim fencingToken now (fun current =>
        let lease := { current with
          renewedAt := now
          expiresAt := expiresAt }
        ({ s with leases := s.leases.set claim.key lease }, .updated lease))
  | .release claim fencingToken =>
    if !validReleaseRequest claim fencingToken then (s, .ok (.rejected .invalidInput))
    else
      s.withLease claim fencingToken now (fun _ =>
        ({ s with leases := s.leases.erase claim.key }, .released))
  | .validate claim fencingToken =>
    if !validReleaseRequest claim fencingToken then (s, .ok (.rejected .invalidInput))
    else s.withLease claim fencingToken now (fun current => (s, .valid current))

theorem perform_eq (s : InMemoryValidationLeaseStore) (now : Int) (call : LeaseCall Int) :
    s.perform now call = match s.observeClock now with
      | .error err => (s, .error err)
      | .ok s₁ => s₁.performAt now call := by
  cases call <;> rfl

/-! ## What the operations do to a cell, once the clock is accepted -/

/-- The answer `result` and the store `s'` after a call on `s`, as an action on the cell. -/
def ActsAt (s : InMemoryValidationLeaseStore) (now : Int) (call : LeaseCall Int)
    (r : InMemoryValidationLeaseStore × Except JsError StoreResult) : Prop :=
  ∃ cell', Moves s r.1 call.scope cell' ∧
    CellStep now call (s.cell call.scope) cell' (storeVerdict r.2)

theorem ActsAt.refuse (s : InMemoryValidationLeaseStore) (now : Int) (call : LeaseCall Int)
    (result : Except JsError StoreResult) (h : storeVerdict result = .refused) :
    ActsAt s now call (s, result) := by
  refine ⟨_, moves_refl s call.scope, ?_⟩
  rw [h]
  exact CellStep.refuse _

theorem withLease_acts (s : InMemoryValidationLeaseStore) (call : LeaseCall Int)
    {fencingToken : Int} (now : Int)
    (hid : call.identity = some ⟨call.claim.owner, call.claim.leaseId, fencingToken⟩)
    (next : ValidationLease → InMemoryValidationLeaseStore × StoreResult)
    (hnext : ∀ lease, (s.cell call.scope).lease = some lease → now < lease.expiresAt →
      call.identity = some lease.identity → ActsAt s now call ((next lease).1, .ok (next lease).2)) :
    ActsAt s now call (s.withLease call.claim fencingToken now next) := by
  unfold withLease
  have hcell : (s.cell call.scope).lease = s.leases.get? call.claim.key := rfl
  cases hget : s.leases.get? call.claim.key with
  | none => exact ActsAt.refuse s now call _ rfl
  | some current =>
    rw [hget] at hcell
    dsimp only
    split_ifs with hexpired
    · exact ⟨_, moves_erase s call.scope, CellStep.expire hcell hexpired⟩
    · cases hreason : identityReason current call.claim fencingToken with
      | some reason => exact ActsAt.refuse s now call _ rfl
      | none =>
        refine hnext current hcell (by omega) ?_
        rw [hid, identityReason_eq_none hreason]

theorem active_spec (s : InMemoryValidationLeaseStore) (scope : String × String) (now : Int) :
    (∃ current, s.active (scopeKey scope.1 scope.2) now = (s, some current)) ∨
    ∃ s₁, s.active (scopeKey scope.1 scope.2) now = (s₁, none) ∧ (s₁ = s ∧ (s.cell scope).lease = none ∨
        ∃ lease, (s.cell scope).lease = some lease ∧ lease.expiresAt ≤ now ∧
          Moves s s₁ scope ⟨none, (s.cell scope).counter⟩) := by
  unfold active
  have hcell : (s.cell scope).lease = s.leases.get? (scopeKey scope.1 scope.2) := rfl
  cases hget : s.leases.get? (scopeKey scope.1 scope.2) with
  | none =>
    rw [hget] at hcell
    exact .inr ⟨s, rfl, Or.inl ⟨rfl, hcell⟩⟩
  | some current =>
    rw [hget] at hcell
    dsimp only
    split_ifs with hexpired
    · exact .inr ⟨_, rfl, Or.inr ⟨current, hcell, hexpired, moves_erase s scope⟩⟩
    · exact .inl ⟨current, rfl⟩

theorem nextToken_acts (s s₁ : InMemoryValidationLeaseStore) (claim : LeaseClaim)
    (expiresAt now : Int) (hfree : ∀ current ∈ (s.cell claim.scope).lease, current.expiresAt ≤ now)
    (hmoves : Moves s s₁ claim.scope ⟨none, (s.cell claim.scope).counter⟩)
    (hsilent : CellStep now (.acquire claim expiresAt) (s.cell claim.scope) ⟨none, (s.cell claim.scope).counter⟩ .refused) :
    ActsAt s now (.acquire claim expiresAt)
      (match s₁.nextToken claim.key with
        | .error err => (s₁, .error err)
        | .ok (s2, fencingToken) =>
          let lease : ValidationLease := ⟨claim, fencingToken, now, now, expiresAt⟩
          ({ s2 with leases := s2.leases.set claim.key lease }, .ok (.acquired lease))) := by
  have hcounter : (s₁.fencingCounters.get? claim.key).getD 0 = (s.cell claim.scope).counter :=
    congrArg LeaseCell.counter hmoves.own
  unfold nextToken
  dsimp only
  rw [hcounter]
  split_ifs
  · exact ⟨_, hmoves, hsilent⟩
  · exact ⟨_, hmoves.trans (moves_grant s₁ claim.scope _ _), CellStep.grant hfree rfl rfl⟩

theorem acquire_acts (s : InMemoryValidationLeaseStore) (claim : LeaseClaim) (expiresAt now : Int) :
    ActsAt s now (.acquire claim expiresAt) (s.performAt now (.acquire claim expiresAt)) := by
  unfold performAt
  dsimp only
  split_ifs
  · exact ActsAt.refuse s now _ _ rfl
  · rcases active_spec s claim.scope now with ⟨current, hactive⟩ |
      ⟨s₁, hactive, ⟨rfl, hnone⟩ | ⟨lease, hlease, hexpired, hmoves⟩⟩
    · rw [show s.active claim.key now = (s, some current) from hactive]
      exact ActsAt.refuse s now _ _ rfl
    · rw [show s₁.active claim.key now = (s₁, none) from hactive]
      have hsame : s₁.cell claim.scope = ⟨none, (s₁.cell claim.scope).counter⟩ := by
        rw [← hnone]
      refine nextToken_acts s₁ s₁ claim expiresAt now (fun current hmem => ?_) ?_ ?_
      · rw [hnone] at hmem
        cases hmem
      · rw [← hsame]
        exact moves_refl s₁ claim.scope
      · rw [← hsame]
        exact CellStep.refuse _
    · rw [show s.active claim.key now = (s₁, none) from hactive]
      refine nextToken_acts s s₁ claim expiresAt now (fun current hmem => ?_) hmoves
        (CellStep.expire hlease hexpired)
      obtain rfl := Option.some.inj (hlease.symm.trans hmem)
      exact hexpired

theorem performAt_acts (s : InMemoryValidationLeaseStore) (now : Int) (call : LeaseCall Int) :
    ActsAt s now call (s.performAt now call) := by
  cases call with
  | acquire claim expiresAt => exact acquire_acts s claim expiresAt now
  | renew claim fencingToken expiresAt =>
    unfold performAt
    dsimp only
    split_ifs with hvalid
    · exact ActsAt.refuse s now _ _ rfl
    · refine withLease_acts s (.renew claim fencingToken expiresAt) now rfl _
        (fun lease hlease hlive hid => ⟨_, moves_set s claim.scope _, ?_⟩)
      unfold validRenewRequest at hvalid
      have hlater : now < expiresAt := by
        simp only [Bool.not_eq_true', Bool.not_eq_false, Bool.and_eq_true, decide_eq_true_eq]
          at hvalid
        exact hvalid.2
      exact CellStep.renew hlease hlive hid rfl hlater ⟨claim, fencingToken, expiresAt, rfl⟩
  | release claim fencingToken =>
    unfold performAt
    dsimp only
    split_ifs
    · exact ActsAt.refuse s now _ _ rfl
    · exact withLease_acts s (.release claim fencingToken) now rfl _
        (fun lease hlease hlive hid => ⟨_, moves_erase s claim.scope,
          CellStep.release hlease hlive hid ⟨claim, fencingToken, rfl⟩⟩)
  | validate claim fencingToken =>
    unfold performAt
    dsimp only
    split_ifs
    · exact ActsAt.refuse s now _ _ rfl
    · exact withLease_acts s (.validate claim fencingToken) now rfl _
        (fun lease hlease hlive hid => ⟨_, moves_refl s claim.scope,
          CellStep.confirm hlease hlive hid ⟨claim, fencingToken, rfl⟩⟩)

/-! ## The answers depend on the cell alone -/

/-- What two stores answer, and leave in the cell of `scope`, is the same. -/
def Alike (scope : String × String)
    (r r' : InMemoryValidationLeaseStore × Except JsError StoreResult) : Prop :=
  r.2 = r'.2 ∧ r.1.cell scope = r'.1.cell scope

variable {s' : InMemoryValidationLeaseStore}

theorem cell_congr {scope : String × String} (h : s.cell scope = s'.cell scope) :
    s.leases.get? (scopeKey scope.1 scope.2) = s'.leases.get? (scopeKey scope.1 scope.2) ∧
      (s.fencingCounters.get? (scopeKey scope.1 scope.2)).getD 0
        = (s'.fencingCounters.get? (scopeKey scope.1 scope.2)).getD 0 :=
  ⟨congrArg LeaseCell.lease h, congrArg LeaseCell.counter h⟩

theorem erase_alike {claim : LeaseClaim} (h : s.cell claim.scope = s'.cell claim.scope) :
    cell { s with leases := s.leases.erase claim.key } claim.scope
      = cell { s' with leases := s'.leases.erase claim.key } claim.scope := by
  have hkey : claim.key = scopeKey claim.scope.1 claim.scope.2 := rfl
  rw [hkey, (moves_erase s claim.scope).own, (moves_erase s' claim.scope).own, h]

theorem set_alike {claim : LeaseClaim} (h : s.cell claim.scope = s'.cell claim.scope)
    (lease : ValidationLease) :
    cell { s with leases := s.leases.set claim.key lease } claim.scope
      = cell { s' with leases := s'.leases.set claim.key lease } claim.scope := by
  have hkey : claim.key = scopeKey claim.scope.1 claim.scope.2 := rfl
  rw [hkey, (moves_set s claim.scope lease).own, (moves_set s' claim.scope lease).own, h]

theorem withLease_alike (claim : LeaseClaim) (h : s.cell claim.scope = s'.cell claim.scope)
    (fencingToken now : Int)
    (next next' : ValidationLease → InMemoryValidationLeaseStore × StoreResult)
    (hnext : ∀ lease, (next lease).2 = (next' lease).2 ∧
      (next lease).1.cell claim.scope = (next' lease).1.cell claim.scope) :
    Alike claim.scope (s.withLease claim fencingToken now next)
      (s'.withLease claim fencingToken now next') := by
  unfold withLease
  rw [show s'.leases.get? claim.key = s.leases.get? claim.key from (cell_congr h).1.symm]
  cases s.leases.get? claim.key with
  | none => exact ⟨rfl, h⟩
  | some current =>
    dsimp only
    split_ifs
    · exact ⟨rfl, erase_alike h⟩
    · cases identityReason current claim fencingToken with
      | some reason => exact ⟨rfl, h⟩
      | none =>
        obtain ⟨hanswer, hcell⟩ := hnext current
        exact ⟨by rw [hanswer], hcell⟩

theorem nextToken_alike (claim : LeaseClaim) (h : s.cell claim.scope = s'.cell claim.scope)
    (expiresAt now : Int) :
    Alike claim.scope
      (match s.nextToken claim.key with
        | .error err => (s, .error err)
        | .ok (s, fencingToken) =>
          let lease : ValidationLease := ⟨claim, fencingToken, now, now, expiresAt⟩
          ({ s with leases := s.leases.set claim.key lease }, .ok (.acquired lease)))
      (match s'.nextToken claim.key with
        | .error err => (s', .error err)
        | .ok (s', fencingToken) =>
          let lease : ValidationLease := ⟨claim, fencingToken, now, now, expiresAt⟩
          ({ s' with leases := s'.leases.set claim.key lease }, .ok (.acquired lease))) := by
  unfold nextToken
  dsimp only
  rw [show (s'.fencingCounters.get? claim.key).getD 0 = (s.fencingCounters.get? claim.key).getD 0
    from (cell_congr h).2.symm]
  split_ifs
  · exact ⟨rfl, h⟩
  · exact ⟨rfl, (moves_grant s claim.scope _ _).own.trans (moves_grant s' claim.scope _ _).own.symm⟩

theorem performAt_alike (now : Int) (call : LeaseCall Int)
    (h : s.cell call.scope = s'.cell call.scope) :
    Alike call.scope (s.performAt now call) (s'.performAt now call) := by
  cases call with
  | acquire claim expiresAt =>
    unfold performAt
    dsimp only
    split_ifs
    · exact ⟨rfl, h⟩
    · unfold active
      rw [show s'.leases.get? claim.key = s.leases.get? claim.key from (cell_congr h).1.symm]
      cases s.leases.get? claim.key with
      | none => exact nextToken_alike claim h expiresAt now
      | some current =>
        dsimp only
        split_ifs
        · exact nextToken_alike claim (erase_alike h) expiresAt now
        · exact ⟨rfl, h⟩
  | renew claim fencingToken expiresAt =>
    unfold performAt
    dsimp only
    split_ifs
    · exact ⟨rfl, h⟩
    · exact withLease_alike claim h fencingToken now _ _ fun lease => ⟨rfl, set_alike h _⟩
  | release claim fencingToken =>
    unfold performAt
    dsimp only
    split_ifs
    · exact ⟨rfl, h⟩
    · exact withLease_alike claim h fencingToken now _ _ fun lease => ⟨rfl, erase_alike h⟩
  | validate claim fencingToken =>
    unfold performAt
    dsimp only
    split_ifs
    · exact ⟨rfl, h⟩
    · exact withLease_alike claim h fencingToken now _ _ fun lease => ⟨rfl, h⟩

theorem performAt_observed (s : InMemoryValidationLeaseStore) (now : Int) (call : LeaseCall Int) :
    (s.performAt now call).1.lastObservedAt = s.lastObservedAt := by
  obtain ⟨cell', hmoves, -⟩ := performAt_acts s now call
  exact hmoves.observed

theorem perform_acts (s : InMemoryValidationLeaseStore) (now : Int) (call : LeaseCall Int) :
    (cell (s.perform now call).1 = cell s ∧ (s.perform now call).1.lastObservedAt = s.lastObservedAt ∧
      storeService.answer s now call = .refused) ∨
    ∃ verdict, (s.perform now call).1.lastObservedAt = some now ∧ (∀ t ∈ s.lastObservedAt, t ≤ now) ∧
      (∀ scope, scope ≠ call.scope → cell (s.perform now call).1 scope = cell s scope) ∧
      CellStep now call (cell s call.scope) (cell (s.perform now call).1 call.scope) verdict ∧
      (storeService.answer s now call = verdict ∨ storeService.answer s now call = .refused) := by
  have heq := perform_eq s now call
  unfold LeaseService.answer
  simp only [storeService, heq]
  cases hclock : s.observeClock now with
  | error err => exact .inl ⟨rfl, rfl, rfl⟩
  | ok s₁ =>
    obtain ⟨rfl, hle⟩ := observeClock_ok hclock
    obtain ⟨cell', hmoves, hstep⟩ := performAt_acts { s with lastObservedAt := some now } now call
    refine .inr ⟨_, hmoves.observed, hle, fun scope hne => hmoves.other scope hne, ?_, Or.inl rfl⟩
    rw [hmoves.own]
    exact hstep

theorem storeService_acts : storeService.ActsOn cell (fun _ => ()) (fun _ => True) where
  init := by
    rintro s rfl
    exact ⟨trivial, fun _ => rfl⟩
  stored := fun _ _ => rfl
  kept := fun _ _ _ => rfl
  stays := fun _ _ _ _ => trivial
  step := by
    intro s now call
    rcases perform_acts s now call with h | h
    · exact .inl h
    · exact .inr ⟨now, h⟩
  congr := by
    intro s s' now call now' _ _ htime hvalid hle hle' _ hcell
    cases htime
    simp only [storeService, perform_eq, observeClock_of_le hvalid hle, observeClock_of_le hvalid hle']
    have hobserved : cell { s with lastObservedAt := some now } call.scope
        = cell { s' with lastObservedAt := some now } call.scope := hcell
    exact performAt_alike now call hobserved
  reads := by
    intro s now call now' htime t ht
    cases htime
    simp only [storeService, perform_eq] at ht ⊢
    cases hclock : s.observeClock now with
    | error err =>
      rw [hclock] at ht
      exact .inr ht
    | ok s₁ =>
      rw [hclock] at ht
      obtain ⟨rfl, -⟩ := observeClock_ok hclock
      rw [performAt_observed] at ht
      exact .inl (Option.some.inj ht).symm

end InMemoryValidationLeaseStore

end Premise.Lease
