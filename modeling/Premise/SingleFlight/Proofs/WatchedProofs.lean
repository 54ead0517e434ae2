import Premise.SingleFlight.Proofs.CoordinatorProofs

/-!
# Flights under every run

What holds of the flights of a watched coordinator in every run: when a flight is silent, which requests
were given it, and that its source is called at most once.
-/

namespace Premise.SingleFlight

open Collections Control Js Protocol ValidationScope

variable {T : Type} {digest : String → String} {texts : Set String}

/-- The requests ask for one validation. -/
structure NormalizedRequest.Alike (r s : NormalizedRequest) : Prop where
  tenantId : r.tenantId = s.tenantId
  resource : r.resource = s.resource
  expectedVersion : r.expectedVersion = s.expectedVersion
  scope : r.scope = s.scope

theorem NormalizedRequest.Alike.rival {r s r' : NormalizedRequest} (h : r.Alike s) (hrival : r.Rival r') : s.Rival r' := by
  obtain ⟨htenant, hresource, hdiff⟩ := hrival
  refine ⟨h.tenantId.symm.trans htenant, h.resource.symm.trans hresource, ?_⟩
  rw [h.expectedVersion, h.scope] at hdiff
  exact hdiff

theorem NormalizedRequest.Alike.of_scope {r s : NormalizedRequest} (hr : r.FromScope)
    (hs : s.FromScope) {scope : PremiseValidationScope} (h : r.scope = some scope)
    (h' : s.scope = some scope) : r.Alike s := by
  obtain ⟨-, htenant, hresource, hversion⟩ := hr scope h
  obtain ⟨-, htenant', hresource', hversion'⟩ := hs scope h'
  exact ⟨htenant.trans htenant'.symm, hresource.trans hresource'.symm, hversion.trans hversion'.symm, h.trans h'.symm⟩

variable {f : Flight T}

namespace Flight

/-- Nothing but `UNKNOWN` has been answered. -/
def Silent (f : Flight T) : Prop :=
  ∀ outcome, f.settled = some (.outcome outcome) → outcome.result = .unknown

theorem settle_silent (h : f.Silent) (reason : UnknownReason) :
    (f.settle (unknownOutcome f.fencingToken reason)).Silent := by
  unfold settle
  split_ifs
  · exact h
  · intro outcome houtcome
    obtain rfl := Settlement.outcome.inj (Option.some.inj houtcome)
    rfl

theorem settle_isSome (f : Flight T) (outcome : FencedValidationOutcome T) : (f.settle outcome).settled.isSome = true := by
  unfold settle
  split_ifs with h
  · exact h
  · rfl

theorem abort_silent (h : f.Silent) : f.abort.Silent := by
  unfold abort
  split_ifs
  · exact h
  · exact settle_silent (f := { f with abortTriggered := true }) h .aborted

theorem abort_isSome (f : Flight T) : f.abort.settled.isSome = true := by
  unfold abort
  split_ifs with h
  · exact h
  · exact settle_isSome _ _

theorem timeout_silent (h : f.Silent) : f.timeout.Silent := by
  unfold timeout
  split_ifs
  · exact h
  · exact settle_silent (f := { f with timeoutTriggered := true }) h .timeout

theorem timeout_isSome (f : Flight T) : f.timeout.settled.isSome = true := by
  unfold timeout
  split_ifs with h
  · exact h
  · exact settle_isSome _ _

theorem operate_settled (f : Flight T) : f.operate.settled = f.settled := by
  unfold operate
  split_ifs <;> rfl

theorem operate_flags (f : Flight T) : f.operate.abortTriggered = f.abortTriggered ∧
    f.operate.timeoutTriggered = f.timeoutTriggered := by
  unfold operate
  split_ifs <;> exact ⟨rfl, rfl⟩

theorem handle_flags (f : Flight T) (latest : Option CurrentResourceVersion)
    (result : OperationResult T) :
    (f.handle latest result).abortTriggered = f.abortTriggered ∧
      (f.handle latest result).timeoutTriggered = f.timeoutTriggered := by
  have hsettle : ∀ (g : Flight T) (outcome : FencedValidationOutcome T),
      (g.settle outcome).abortTriggered = g.abortTriggered ∧
        (g.settle outcome).timeoutTriggered = g.timeoutTriggered := by
    intro g outcome
    unfold settle
    split_ifs <;> exact ⟨rfl, rfl⟩
  unfold handle
  dsimp only
  split
  · exact ⟨rfl, rfl⟩
  · split
    · split
      · exact hsettle _ _
      · split
        · exact ⟨rfl, rfl⟩
        · split
          · exact hsettle _ _
          · exact hsettle _ _
    · split
      · exact hsettle _ _
      · split
        · exact hsettle _ _
        · unfold fail
          split_ifs <;> exact ⟨rfl, rfl⟩

theorem handle_of_settled (h : f.settled.isSome = true) (latest : Option CurrentResourceVersion)
    (result : OperationResult T) :
    f.handle latest result = { f with phase := .handled } := if_pos h

theorem handle_latest (h : f.settled = none) {outcome : FencedValidationOutcome T}
    (htoken : outcome.fencingToken = f.fencingToken) :
    (f.handle (some ⟨f.supersessionKey, f.fencingToken⟩) (.outcome (some outcome))).settled
      = some (.outcome outcome) := by
  unfold handle
  dsimp only
  rw [h, if_neg nofun, if_neg (not_not.mpr rfl), if_neg (not_not.mpr htoken)]
  unfold settle
  rw [if_neg nofun]

theorem handle_fenced (h : f.Silent) {latest : Option CurrentResourceVersion}
    (hlatest : latest ≠ some ⟨f.supersessionKey, f.fencingToken⟩) (result : OperationResult T) :
    (f.handle latest result).Silent := by
  have hphase : Silent { f with phase := .handled } := h
  by_cases hsettled : f.settled.isSome = true
  · rw [handle_of_settled hsettled]
    exact h
  · unfold handle
    rw [if_neg hsettled]
    cases result with
    | outcome outcome =>
      dsimp only
      rw [if_pos hlatest]
      exact settle_silent hphase .fenced
    | threw abortLike =>
      dsimp only
      split
      · exact settle_silent hphase .timeout
      · split
        · exact settle_silent hphase .aborted
        · unfold fail
          rw [if_neg hsettled]
          exact nofun

end Flight

/-! ## The invariant -/

namespace Watched

/-- What is known of a flight without the fence. -/
structure Timed (w : Watched T) (i : Nat) (f : Flight T) : Prop where
  silent : w.sourceSettled i = none → f.Silent
  waiting : w.sourceSettled i = none → f.settled = none →
    f.phase = .scheduled ∨ f.phase = .calling
  unsettled : f.phase = .scheduled ∨ f.phase = .calling → w.sourceSettled i = none
  aborted : f.abortTriggered = true ∨ f.timeoutTriggered = true → f.settled.isSome = true
  called : i ∈ w.sourceCalls → f.phase ≠ .scheduled

structure Sound (digest : String → String) (texts : Set String) (w : Watched T) : Prop where
  coordinator : w.coordinator.Sound digest texts
  timed : ∀ i f, w.flight? i = some f → w.Timed i f
  requested : ∀ (k : Nat) (r : NormalizedRequest) (i : Nat), w.requests[k]? = some (r, i) →
    ∃ f, w.flight? i = some f ∧ r.Alike f.request
  lone : ∀ (j k : Nat) (r r' : NormalizedRequest) (i : Nat), j ≠ k →
    w.requests[j]? = some (r, i) → w.requests[k]? = some (r', i) → r.scope ≠ none
  fields : ∀ i f, w.flight? i = some f → f.request.FromScope
  times : ∀ i n, w.sourceSettled i = some n →
    n ≤ w.requests.length ∧ i < w.coordinator.started.length
  calls : ∀ i ∈ w.sourceCalls, i < w.coordinator.started.length
  calls_nodup : w.sourceCalls.Nodup

variable {w : Watched T}

theorem Sound.modify (h : w.Sound digest texts) {i : Nat} {g : Flight T → Flight T} (hf : w.flight? i = some f)
    (hkept : f.Kept (g f)) (hlive : f.phase ≠ .finished) (hphase : (g f).phase ≠ .finished) {w' : Watched T}
    (hcoordinator : w'.coordinator = w.coordinator.modify i g) (hrequests : w'.requests = w.requests)
    (hcalls : ∀ j, j ∈ w'.sourceCalls ↔ j ∈ w.sourceCalls ∨ (j = i ∧ i ∈ w'.sourceCalls))
    (hnodup : w'.sourceCalls.Nodup) (hother : ∀ j, j ≠ i → w'.sourceSettled j = w.sourceSettled j)
    (htimes : ∀ n, w'.sourceSettled i = some n → n ≤ w.requests.length) (htimed : w'.Timed i (g f)) :
    w'.Sound digest texts := by
  have hlength : w'.coordinator.started.length = w.coordinator.started.length := by
    rw [hcoordinator]
    exact List.length_modify _ _ _
  have hlt : i < w.coordinator.started.length := (List.getElem?_eq_some_iff.mp hf).1
  have hcases : ∀ {j : Nat} {f' : Flight T}, w'.flight? j = some f' →
      (j = i ∧ f' = g f) ∨ (j ≠ i ∧ w.flight? j = some f') := by
    intro j f' hf'
    unfold flight? at hf'
    rw [hcoordinator] at hf'
    exact Coordinator.getElem?_modify_cases hf hf'
  refine ⟨?_, ?_, ?_, ?_, ?_, ?_, ?_, hnodup⟩
  · rw [hcoordinator]
    exact h.coordinator.modify hf hkept hlive hphase
  · intro j f' hf'
    rcases hcases hf' with ⟨rfl, rfl⟩ | ⟨hne, hold⟩
    · exact htimed
    · have htimed' := h.timed j f' hold
      have hsettled := hother j hne
      refine ⟨?_, ?_, ?_, htimed'.aborted, ?_⟩
      · rw [hsettled]
        exact htimed'.silent
      · rw [hsettled]
        exact htimed'.waiting
      · rw [hsettled]
        exact htimed'.unsettled
      · intro hcall
        rcases (hcalls j).mp hcall with hcall | ⟨heq, -⟩
        · exact htimed'.called hcall
        · exact absurd heq hne
  · intro k r j hk
    rw [hrequests] at hk
    obtain ⟨f', hf', halike⟩ := h.requested k r j hk
    unfold flight?
    rw [hcoordinator, Coordinator.getElem?_modify]
    by_cases hij : i = j
    · subst hij
      obtain rfl := Option.some.inj (hf.symm.trans hf')
      rw [if_pos rfl, show w.coordinator.started[i]? = some f from hf]
      exact ⟨g f, rfl, by rw [hkept.request]; exact halike⟩
    · rw [if_neg hij]
      exact ⟨f', hf', halike⟩
  · rw [hrequests]
    exact h.lone
  · intro j f' hf'
    rcases hcases hf' with ⟨rfl, rfl⟩ | ⟨-, hold⟩
    · rw [hkept.request]
      exact h.fields j f hf
    · exact h.fields j f' hold
  · intro j n hn
    rw [hrequests, hlength]
    by_cases hij : j = i
    · subst hij
      exact ⟨htimes n hn, hlt⟩
    · rw [hother j hij] at hn
      exact h.times j n hn
  · intro j hj
    rw [hlength]
    rcases (hcalls j).mp hj with hj | ⟨rfl, -⟩
    · exact h.calls j hj
    · exact hlt

/-! ### Jobs of a flight -/

theorem mem_same {l : List Nat} {i : Nat} (j : Nat) : j ∈ l ↔ j ∈ l ∨ (j = i ∧ i ∈ l) := by
  constructor
  · exact .inl
  · rintro (h | ⟨rfl, h⟩)
    · exact h
    · exact h

section

variable (h : w.Sound digest texts)
include h

theorem Sound.abort {i : Nat} {f : Flight T}
    (hf : w.flight? i = some f) (hlive : f.phase ≠ .finished) :
    (w.modify i (fun f => f.abort)).Sound digest texts := by
  have htimed := h.timed i f hf
  have hphase := f.abort_phase
  refine h.modify hf f.abort_kept hlive (by rw [hphase]; exact hlive) rfl rfl mem_same
    h.calls_nodup (fun _ _ => rfl) (fun n hn => (h.times i n hn).1) ?_
  refine ⟨fun hnone => Flight.abort_silent (htimed.silent hnone), ?_, ?_, ?_, ?_⟩
  · intro _ hsettled
    have hsome := f.abort_isSome
    rw [hsettled] at hsome
    cases hsome
  · rw [hphase]
    exact htimed.unsettled
  · exact fun _ => f.abort_isSome
  · rw [hphase]
    exact htimed.called

theorem Sound.timeout {i : Nat} {f : Flight T}
    (hf : w.flight? i = some f) (hlive : f.phase ≠ .finished) :
    (w.modify i (fun f => f.timeout)).Sound digest texts := by
  have htimed := h.timed i f hf
  have hphase := f.timeout_phase
  refine h.modify hf f.timeout_kept hlive (by rw [hphase]; exact hlive) rfl rfl mem_same
    h.calls_nodup (fun _ _ => rfl) (fun n hn => (h.times i n hn).1) ?_
  refine ⟨fun hnone => Flight.timeout_silent (htimed.silent hnone), ?_, ?_, ?_, ?_⟩
  · intro _ hsettled
    have hsome := f.timeout_isSome
    rw [hsettled] at hsome
    cases hsome
  · rw [hphase]
    exact htimed.unsettled
  · exact fun _ => f.timeout_isSome
  · rw [hphase]
    exact htimed.called

theorem Sound.operate {i : Nat} {f : Flight T}
    (hf : w.flight? i = some f) (hphase : f.phase = .scheduled) :
    Sound digest texts { w.modify i (fun f => f.operate) with
      sourceCalls :=
        if f.abortTriggered || f.timeoutTriggered then w.sourceCalls else w.sourceCalls ++ [i] } := by
  have htimed := h.timed i f hf
  have hnew : i ∉ w.sourceCalls := fun hcall => htimed.called hcall hphase
  have hsettled := htimed.unsettled (Or.inl hphase)
  have hoperate : f.operate.phase ≠ .finished ∧ f.operate.phase ≠ .scheduled ∧
      (f.operate.settled = none → f.operate.phase = .calling) := by
    rw [f.operate_settled]
    unfold Flight.operate
    by_cases haborted : (f.abortTriggered || f.timeoutTriggered) = true
    · rw [if_pos haborted]
      refine ⟨?_, ?_, ?_⟩
      · nofun
      · nofun
      · intro hnone
        have hsome := htimed.aborted (Bool.or_eq_true_iff.mp haborted)
        rw [hnone] at hsome
        cases hsome
    · rw [if_neg haborted]
      refine ⟨?_, ?_, ?_⟩
      · nofun
      · nofun
      · exact fun _ => rfl
  refine h.modify hf f.operate_kept (by rw [hphase]; nofun) hoperate.1 rfl rfl ?_ ?_
    (fun _ _ => rfl) (fun n hn => (h.times i n hn).1) ?_
  · intro j
    split_ifs
    · exact mem_same j
    · rw [List.mem_append, List.mem_append, List.mem_singleton]
      constructor
      · rintro (hj | rfl)
        · exact .inl hj
        · exact .inr ⟨rfl, Or.inr (List.mem_singleton_self _)⟩
      · rintro (hj | ⟨rfl, -⟩)
        · exact .inl hj
        · exact .inr rfl
  · dsimp only
    split_ifs
    · exact h.calls_nodup
    · exact List.nodup_append.mpr ⟨h.calls_nodup, List.nodup_singleton _, by
        rintro j hj k hk rfl
        rw [List.mem_singleton] at hk
        exact hnew (hk ▸ hj)⟩
  · refine ⟨fun _ => ?_, fun _ hnone => Or.inr (hoperate.2.2 hnone), fun _ => hsettled, ?_, fun _ => hoperate.2.1⟩
    · intro outcome houtcome
      rw [f.operate_settled] at houtcome
      exact htimed.silent hsettled outcome houtcome
    · rw [f.operate_settled, f.operate_flags.1, f.operate_flags.2]
      exact htimed.aborted

theorem Sound.sourceSettles {i : Nat} {f : Flight T}
    {result : OperationResult T} (hf : w.flight? i = some f) (hphase : f.phase = .calling) :
    Sound digest texts { w.modify i (fun f => { f with phase := .returned result }) with
      sourceSettled := Function.update w.sourceSettled i (some w.requests.length) } := by
  have htimed := h.timed i f hf
  have hupdate : Function.update w.sourceSettled i (some w.requests.length) i
      = some w.requests.length := Function.update_self _ _ _
  refine h.modify (g := fun f => { f with phase := .returned result }) hf ⟨rfl, rfl, rfl, rfl, rfl⟩
    (by rw [hphase]; nofun) nofun rfl rfl mem_same h.calls_nodup
    (fun j hne => Function.update_of_ne hne _ _) ?_ ?_
  · intro n hn
    dsimp only at hn
    rw [hupdate] at hn
    exact le_of_eq (Option.some.inj hn).symm
  · refine ⟨?_, ?_, nofun, htimed.aborted, fun _ => nofun⟩
    · intro hnone
      exact absurd (hupdate.symm.trans hnone) nofun
    · intro hnone
      exact absurd (hupdate.symm.trans hnone) nofun

theorem Sound.handle {i : Nat} {f : Flight T}
    {result : OperationResult T} (hf : w.flight? i = some f) (hphase : f.phase = .returned result) :
    Sound digest texts { w with coordinator := w.coordinator.handle i f result } := by
  have htimed := h.timed i f hf
  have hphase' := f.handle_phase (w.coordinator.latestByResource.get? f.resourceKey) result
  have hsettled : w.sourceSettled i = none → f.settled.isSome = true := by
    intro hnone
    cases hsettled : f.settled with
    | some _ => rfl
    | none =>
      rcases htimed.waiting hnone hsettled with h | h
      · rw [hphase] at h
        cases h
      · rw [hphase] at h
        cases h
  refine h.modify (g := fun _ => f.handle _ result) hf (f.handle_kept _ _) (by rw [hphase]; nofun)
    (by rw [hphase']; nofun) rfl rfl mem_same h.calls_nodup (fun _ _ => rfl)
    (fun n hn => (h.times i n hn).1) ?_
  refine ⟨?_, ?_, ?_, ?_, ?_⟩
  · intro hnone
    rw [Flight.handle_of_settled (hsettled hnone)]
    exact htimed.silent hnone
  · intro hnone hopen
    rw [Flight.handle_of_settled (hsettled hnone)] at hopen
    have hsome := hsettled hnone
    rw [show f.settled = none from hopen] at hsome
    cases hsome
  · rw [hphase']
    rintro (h | h) <;> cases h
  · intro hflags
    obtain ⟨habort, htimeout⟩ := f.handle_flags (w.coordinator.latestByResource.get? f.resourceKey) result
    rw [habort, htimeout] at hflags
    have hsome := htimed.aborted hflags
    rw [Flight.handle_of_settled hsome]
    exact hsome
  · intro _
    rw [hphase']
    nofun

theorem Sound.cleanUp {i : Nat} {f : Flight T}
    (hf : w.flight? i = some f) (hphase : f.phase = .handled) :
    Sound digest texts { w with coordinator := w.coordinator.cleanUp i f } := by
  have hlength : (w.coordinator.cleanUp i f).started.length = w.coordinator.started.length :=
    List.length_modify _ _ _
  refine ⟨h.coordinator.cleanUp hf hphase, ?_, ?_, h.lone, ?_, ?_, ?_, h.calls_nodup⟩
  · intro j f' hf'
    rcases Coordinator.getElem?_cleanUp hf hf' with ⟨rfl, rfl⟩ | ⟨-, hold⟩
    · have htimed := h.timed j f hf
      refine ⟨htimed.silent, ?_, ?_, htimed.aborted, fun _ => nofun⟩
      · intro hnone hopen
        rcases htimed.waiting hnone hopen with h | h
        · rw [hphase] at h
          cases h
        · rw [hphase] at h
          cases h
      · rintro (h | h) <;> cases h
    · have htimed := h.timed j f' hold
      exact ⟨htimed.silent, htimed.waiting, htimed.unsettled, htimed.aborted, htimed.called⟩
  · intro k r j hk
    obtain ⟨f', hf', halike⟩ := h.requested k r j hk
    show ∃ f1, (w.coordinator.modify i _).started[j]? = some f1 ∧ _
    rw [Coordinator.getElem?_modify, show w.coordinator.started[j]? = some f' from hf']
    split_ifs
    · exact ⟨_, rfl, halike⟩
    · exact ⟨f', rfl, halike⟩
  · intro j f' hf'
    rcases Coordinator.getElem?_cleanUp hf hf' with ⟨rfl, rfl⟩ | ⟨-, hold⟩
    · exact h.fields j f hf
    · exact h.fields j f' hold
  · intro j n hn
    obtain ⟨hn, hj⟩ := h.times j n hn
    exact ⟨hn, hlength.symm ▸ hj⟩
  · intro j hj
    exact hlength.symm ▸ h.calls j hj

end

/-! ### Requests -/

theorem getElem?_append_request {l : List (NormalizedRequest × Nat)} {p q : NormalizedRequest × Nat}
    {k : Nat} (h : (l ++ [p])[k]? = some q) : l[k]? = some q ∨ (k = l.length ∧ q = p) := by
  rw [List.getElem?_append] at h
  split_ifs at h with hlt
  · exact .inl h
  · rw [List.getElem?_singleton] at h
    split_ifs at h with hzero
    exact .inr ⟨by omega, (Option.some.inj h).symm⟩

section

variable (h : w.Sound digest texts) (hdigest : Set.InjOn digest texts)
include h hdigest

theorem Sound.joined
    {input : FencedValidationRequest} {request : NormalizedRequest} {i : Nat}
    {scope : PremiseValidationScope} (hrequest : normalizeRequest input = .ok request)
    (htexts : request.texts ⊆ texts) (hscope : request.scope = some scope)
    (hflying : w.coordinator.flights.get? (digestKey digest (scopeText scope)) = some i) :
    ∃ f, w.flight? i = some f ∧ request.Alike f.request := by
  have hfields := normalizeRequest_fromScope hrequest
  obtain ⟨f, hf, hkey, -⟩ := h.coordinator.owned _ i hflying
  obtain ⟨-, n, -, hkeyed⟩ := h.coordinator.keyed i f hf
  have hsame := (Keyed.complete (n := n) hscope hfields htexts).same_key hdigest hkeyed hkey.symm
  exact ⟨f, hf, .of_scope hfields (h.fields i f hf) hscope (hsame.1.symm.trans hscope)⟩

theorem Sound.validate
    {input : FencedValidationRequest} {request : NormalizedRequest} {c : Coordinator T} {i : Nat}
    (hrequest : normalizeRequest input = .ok request) (htexts : request.texts ⊆ texts)
    (hvalidate : w.coordinator.validate digest input = (c, .ok i)) :
    Sound digest texts
      { w with coordinator := c, requests := w.requests ++ [(request, i)] } := by
  have hlength : ∀ n, n ≤ w.requests.length → n ≤ (w.requests ++ [(request, i)]).length := by
    intro n hn
    rw [List.length_append]
    omega
  rcases Coordinator.validate_cases h.coordinator hrequest htexts hvalidate with
    ⟨rfl, scope, hscope, hflying⟩ |
    ⟨c₁, n, key, supersession, hsound, hstarted, -, hflights, rfl, rfl, hkeyed, hn, hfresh, hnumber⟩
  · obtain ⟨f, hf, halike⟩ := h.joined hdigest hrequest htexts hscope hflying
    refine ⟨h.coordinator, ?_, ?_, ?_, h.fields, ?_, h.calls, h.calls_nodup⟩
    · intro j f' hf'
      have htimed := h.timed j f' hf'
      exact ⟨htimed.silent, htimed.waiting, htimed.unsettled, htimed.aborted, htimed.called⟩
    · intro k r j hk
      rcases getElem?_append_request hk with hk | ⟨-, heq⟩
      · exact h.requested k r j hk
      · cases heq
        exact ⟨f, hf, halike⟩
    · intro j k r r' i' hne hj hk
      rcases getElem?_append_request hj with hj' | ⟨rfl, heq⟩
      · rcases getElem?_append_request hk with hk' | ⟨rfl, heq'⟩
        · exact h.lone j k r r' i' hne hj' hk'
        · obtain ⟨rfl, rfl⟩ := Prod.mk.inj heq'
          obtain ⟨f', hf', halike'⟩ := h.requested j r i' hj'
          obtain rfl := Option.some.inj (hf.symm.trans hf')
          rw [halike'.scope, ← halike.scope, hscope]
          nofun
      · cases heq
        rw [hscope]
        nofun
    · intro j n hn
      obtain ⟨hn, hj⟩ := h.times j n hn
      exact ⟨hlength n hn, hj⟩
  · have hfields := normalizeRequest_fromScope hrequest
    have hcases : ∀ {j : Nat} {f : Flight T}, (c₁.start request key supersession).started[j]? = some f →
        w.flight? j = some f ∨
          (j = w.coordinator.started.length ∧ f = c₁.newFlight request key supersession) := by
      intro j f hf
      rcases Coordinator.getElem?_start hf with hf | ⟨hj, hf⟩
      · rw [hstarted] at hf
        exact .inl hf
      · rw [hstarted] at hj
        exact .inr ⟨hj, hf⟩
    obtain ⟨hrequest', -, -, -, -, hphase⟩ := Coordinator.newFlight_kept c₁ request key supersession
    have hsettled : w.sourceSettled w.coordinator.started.length = none := by
      cases hsettled : w.sourceSettled w.coordinator.started.length with
      | none => rfl
      | some n => exact absurd (h.times _ n hsettled).2 (Nat.lt_irrefl _)
    have huncalled : w.coordinator.started.length ∉ w.sourceCalls :=
      fun hcall => Nat.lt_irrefl _ (h.calls _ hcall)
    have hnew : (c₁.start request key supersession).started[w.coordinator.started.length]?
        = some (c₁.newFlight request key supersession) := by
      rw [← hstarted]
      exact Coordinator.getElem?_start_new
    have hold : ∀ {j : Nat} {f : Flight T}, w.flight? j = some f →
        (c₁.start request key supersession).started[j]? = some f := by
      intro j f hf
      apply Coordinator.getElem?_start_old
      rw [hstarted]
      exact hf
    have hstart : (c₁.start request key supersession).started.length = w.coordinator.started.length + 1 := by
      rw [← hstarted]
      exact List.length_append
    refine ⟨hsound.start hdigest hkeyed hn hfresh (fun hnone j f hf => (hnumber hnone j f hf).1), ?_,
      ?_, ?_, ?_, ?_, ?_, h.calls_nodup⟩
    · intro j f hf
      rcases hcases hf with hf | ⟨rfl, rfl⟩
      · have htimed := h.timed j f hf
        exact ⟨htimed.silent, htimed.waiting, htimed.unsettled, htimed.aborted, htimed.called⟩
      · refine ⟨fun _ => ?_, fun _ _ => Or.inl hphase, fun _ => hsettled, ?_, ?_⟩
        · unfold Coordinator.newFlight
          split_ifs
          · exact Flight.abort_silent nofun
          · exact nofun
        · unfold Coordinator.newFlight
          split_ifs
          · exact fun _ => Flight.abort_isSome _
          · rintro (h | h) <;> cases h
        · exact fun hcall => absurd hcall huncalled
    · intro k r j hk
      rcases getElem?_append_request hk with hk | ⟨-, heq⟩
      · obtain ⟨f, hf, halike⟩ := h.requested k r j hk
        exact ⟨f, hold hf, halike⟩
      · cases heq
        exact ⟨_, hnew, by rw [hrequest']; exact ⟨rfl, rfl, rfl, rfl⟩⟩
    · intro j k r r' i' hne hj hk
      have hlt : ∀ {k : Nat} {r : NormalizedRequest} {i : Nat}, w.requests[k]? = some (r, i) →
          i < w.coordinator.started.length := by
        intro k r i hk
        obtain ⟨f, hf, -⟩ := h.requested k r i hk
        exact (List.getElem?_eq_some_iff.mp hf).1
      rcases getElem?_append_request hj with hj' | ⟨rfl, heq⟩
      · rcases getElem?_append_request hk with hk' | ⟨rfl, heq'⟩
        · exact h.lone j k r r' i' hne hj' hk'
        · obtain ⟨-, rfl⟩ := Prod.mk.inj heq'
          exact absurd (hlt hj') (Nat.lt_irrefl _)
      · rcases getElem?_append_request hk with hk' | ⟨rfl, heq'⟩
        · obtain ⟨-, rfl⟩ := Prod.mk.inj heq
          exact absurd (hlt hk') (Nat.lt_irrefl _)
        · exact absurd rfl hne
    · intro j f hf
      rcases hcases hf with hf | ⟨-, rfl⟩
      · exact h.fields j f hf
      · rw [hrequest']
        exact hfields
    · intro j n hn
      obtain ⟨hn, hj⟩ := h.times j n hn
      refine ⟨hlength n hn, ?_⟩
      show j < (c₁.start request key supersession).started.length
      omega
    · intro j hj
      have hlt := h.calls j hj
      show j < (c₁.start request key supersession).started.length
      omega

theorem Sound.step
    {i : FlightStep T} {w' : Watched T} (hstep : Step digest texts w i w') :
    w'.Sound digest texts := by
  cases hstep with
  | validate hrequest htexts hvalidate => exact h.validate hdigest hrequest htexts hvalidate
  | refuse hvalidate =>
    rw [Coordinator.validate_refused hvalidate]
    exact h
  | abort hf _ hlive => exact h.abort hf hlive
  | timeout hf _ hlive => exact h.timeout hf hlive
  | operate hf hphase => exact h.operate hf hphase
  | sourceSettles hf hphase => exact h.sourceSettles hf hphase
  | handle hf hphase => exact h.handle hf hphase
  | cleanUp hf hphase => exact h.cleanUp hf hphase

end

theorem Sound.initial (defaultTimeoutMs : Option Int) :
    Sound (T := T) digest texts { coordinator := { defaultTimeoutMs := defaultTimeoutMs } } where
  coordinator := by
    refine ⟨?_, ?_, ?_, ?_, ?_, ?_⟩
    · intro i f hf
      cases hf
    · intro i j f g hf
      cases hf
    · intro i f hf
      cases hf
    · intro key i hi
      cases hi
    · intro resource v hv
      cases hv
    · intro i f hf
      cases hf
  timed := by
    intro i f hf
    cases hf
  requested := by
    intro k r i hk
    cases hk
  lone := by
    intro j k r r' i _ hj
    cases hj
  fields := by
    intro i f hf
    cases hf
  times := by
    intro i n hn
    cases hn
  calls := by
    intro i hi
    cases hi
  calls_nodup := List.nodup_nil

theorem Sound.reachable (hdigest : Set.InjOn digest texts)
    (h : (system T digest texts).Reachable w) : w.Sound digest texts := by
  apply h.invariant (Sound digest texts)
  · rintro w ⟨defaultTimeoutMs, rfl⟩
    exact Sound.initial defaultTimeoutMs
  · exact fun w i w' h hstep => h.step hdigest hstep

end Watched

end Premise.SingleFlight
