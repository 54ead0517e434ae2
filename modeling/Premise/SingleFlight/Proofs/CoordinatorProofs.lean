import Premise.SingleFlight.Coordinator
import Premise.ValidationScope.Proofs.ScopeProofs

/-!
# Keys of flights

What a normalized request carries, and what the keys of two requests tell about them.
-/

namespace Premise.SingleFlight

open Collections Control Js Protocol ValidationScope

def NormalizedRequest.FromScope (request : NormalizedRequest) : Prop :=
  ∀ scope ∈ request.scope, normalizePremiseValidationScope scope = .ok scope ∧
    request.tenantId = scope.tenantId ∧ request.resource = scope.resourceId ∧
    request.expectedVersion = ⟨scope.versionScheme, scope.versionToken⟩

theorem normalizeRequest_fromScope {input : FencedValidationRequest} {request : NormalizedRequest}
    (h : normalizeRequest input = .ok request) : request.FromScope := by
  unfold normalizeRequest at h
  intro scope hscope
  split at h
  · simp only [bind, Except.bind] at h
    split at h
    · cases h
    next scope' hnormal =>
    split at h
    · cases h
    split at h
    · cases h
    split at h
    · cases h
    split at h
    · cases h
    split at h
    · cases h
    next hmatch =>
    split at h
    · cases h
    cases h
    cases hscope
    push Not at hmatch
    obtain ⟨htenant, hresource, hscheme, htoken⟩ := hmatch
    exact ⟨PremiseValidationScope.normalize_again hnormal, htenant, hresource, by
      rw [hscheme, htoken]⟩
  · simp only [bind, Except.bind] at h
    split at h
    · cases h
    split at h
    · cases h
    split at h
    · cases h
    split at h
    · cases h
    split at h
    · cases h
    cases h
    cases hscope

theorem normalizeRequest_scope {input : FencedValidationRequest} {request : NormalizedRequest}
    (h : normalizeRequest input = .ok request) {scope : PremiseValidationScope}
    (hscope : input.scope = some scope) : request.scope = some scope.normal := by
  unfold normalizeRequest at h
  rw [hscope] at h
  simp only [bind, Except.bind] at h
  split at h
  · cases h
  next scope' hnormal =>
  split at h
  · cases h
  split at h
  · cases h
  split at h
  · cases h
  split at h
  · cases h
  split at h
  · cases h
  split at h
  · cases h
  cases h
  exact congrArg some (PremiseValidationScope.normalize_ok hnormal)

def legacyKey (n : Nat) : String := "legacy-isolated:" ++ toString n

theorem legacyKey_injective : Function.Injective legacyKey := by
  intro m n h
  have hrepr : m.repr = n.repr := by
    apply String.toList_injective
    have hlist := congrArg String.toList h
    unfold legacyKey at hlist
    rw [String.toList_append, String.toList_append] at hlist
    exact List.append_cancel_left hlist
  have hread := congrArg String.toNat? hrepr
  rw [Nat.toNat?_repr, Nat.toNat?_repr] at hread
  exact Option.some.inj hread

theorem digestKey_ne_legacyKey (digest : String → String) (text : List Char) (n : Nat) :
    digestKey digest text ≠ legacyKey n := by
  intro h
  have hlist := congrArg String.toList h
  unfold digestKey legacyKey at hlist
  rw [String.toList_append, String.toList_append] at hlist
  have hhead := congrArg List.head? hlist
  cases hhead

variable {digest : String → String} {texts : Set String} {scope scope' : PremiseValidationScope}

/-- The keys under which a request flies; a request without a scope flies under a number. -/
inductive Keyed (digest : String → String) (texts : Set String) (n : Nat)
    (request : NormalizedRequest) : String → String → Prop
  | legacy : request.scope = none → Keyed digest texts n request (legacyKey n) (legacyKey n)
  | complete {scope : PremiseValidationScope} : request.scope = some scope → request.FromScope →
      request.texts ⊆ texts → Keyed digest texts n request (digestKey digest (scopeText scope))
        (digestKey digest (supersessionText scope))

variable {n n' : Nat} {r r' : NormalizedRequest} {key key' supersession supersession' : String}

/-- Requests under one key have one scope; requests without a scope have one number. -/
theorem Keyed.same_key (hdigest : Set.InjOn digest texts) (h : Keyed digest texts n r key supersession)
    (h' : Keyed digest texts n' r' key' supersession') (hkey : key = key') :
    r.scope = r'.scope ∧ (r.scope = none → n = n') := by
  cases h with
  | legacy hscope =>
    cases h' with
    | legacy hscope' =>
      exact ⟨hscope.trans hscope'.symm, fun _ => legacyKey_injective hkey⟩
    | complete hscope' _ _ => exact absurd hkey.symm (digestKey_ne_legacyKey _ _ _)
  | @complete scope hscope _ htexts =>
    cases h' with
    | legacy hscope' => exact absurd hkey (digestKey_ne_legacyKey _ _ _)
    | @complete scope' hscope' _ htexts' =>
      have htext : scopeText scope = scopeText scope' := digestKey_inj hdigest
        (htexts ⟨scope, hscope, Or.inl rfl⟩) (htexts' ⟨scope', hscope', Or.inl rfl⟩) hkey
      refine ⟨?_, fun hnone => ?_⟩
      · rw [hscope, hscope', scopeText_injective htext]
      · rw [hscope] at hnone
        cases hnone

theorem Keyed.ne_legacyKey (h : Keyed digest texts n r key supersession) (hn : n < n') :
    key ≠ legacyKey n' ∧ supersession ≠ legacyKey n' := by
  cases h with
  | legacy _ =>
    have hne : legacyKey n ≠ legacyKey n' := by
      intro heq
      have hsame := legacyKey_injective heq
      omega
    exact ⟨hne, hne⟩
  | complete _ _ _ => exact ⟨digestKey_ne_legacyKey _ _ _, digestKey_ne_legacyKey _ _ _⟩

theorem Keyed.rival (hdigest : Set.InjOn digest texts) (h : Keyed digest texts n r key supersession)
    (h' : Keyed digest texts n' r' key' supersession') (hrival : r.Rival r')
    (hn : r.scope = none → r'.scope = none → n ≠ n') : supersession ≠ supersession' := by
  intro hsame
  cases h with
  | legacy hscope =>
    cases h' with
    | legacy hscope' => exact hn hscope hscope' (legacyKey_injective hsame)
    | complete hscope' _ _ => exact digestKey_ne_legacyKey _ _ _ hsame.symm
  | @complete scope hscope hfields htexts =>
    cases h' with
    | legacy hscope' => exact digestKey_ne_legacyKey _ _ _ hsame
    | @complete scope' hscope' hfields' htexts' =>
      have htext : supersessionText scope = supersessionText scope' := digestKey_inj hdigest
        (htexts ⟨scope, hscope, Or.inr rfl⟩) (htexts' ⟨scope', hscope', Or.inr rfl⟩) hsame
      obtain ⟨-, -, hincarnation, hscheme, htoken⟩ := supersessionText_eq htext
      obtain ⟨-, -, -, hversion⟩ := hfields scope hscope
      obtain ⟨-, -, -, hversion'⟩ := hfields' scope' hscope'
      rcases hrival.2.2 with hne | ⟨s, hs, s', hs', hne⟩
      · exact hne (by rw [hversion, hversion', hscheme, htoken])
      · obtain rfl := Option.some.inj (hs.symm.trans hscope)
        obtain rfl := Option.some.inj (hs'.symm.trans hscope')
        exact hne hincarnation

/-!
# The flights of a coordinator

The flights that are not finished are the ones in the map, each under its key, and the latest version
of a resource has a token at least as high as every flight that is in progress there.
-/

variable {T : Type} {digest : String → String} {texts : Set String}

variable {f f' : Flight T} {i : Nat}

namespace Flight

/-- What stays of a flight. -/
structure Kept (f f' : Flight T) : Prop where
  request : f'.request = f.request
  key : f'.key = f.key
  resourceKey : f'.resourceKey = f.resourceKey
  supersessionKey : f'.supersessionKey = f.supersessionKey
  fencingToken : f'.fencingToken = f.fencingToken

theorem Kept.refl (f : Flight T) : f.Kept f := ⟨rfl, rfl, rfl, rfl, rfl⟩

theorem Kept.trans {f'' : Flight T} (h : f.Kept f') (h' : f'.Kept f'') : f.Kept f'' :=
  ⟨h'.request.trans h.request, h'.key.trans h.key, h'.resourceKey.trans h.resourceKey,
    h'.supersessionKey.trans h.supersessionKey, h'.fencingToken.trans h.fencingToken⟩

theorem settle_kept (f : Flight T) (outcome : FencedValidationOutcome T) : f.Kept (f.settle outcome) := by
  unfold settle
  split_ifs <;> exact ⟨rfl, rfl, rfl, rfl, rfl⟩

theorem settle_phase (f : Flight T) (outcome : FencedValidationOutcome T) : (f.settle outcome).phase = f.phase := by
  unfold settle
  split_ifs <;> rfl

theorem abort_kept (f : Flight T) : f.Kept f.abort := by
  unfold abort
  split_ifs
  · exact Kept.refl f
  · have hflag : f.Kept { f with abortTriggered := true } := ⟨rfl, rfl, rfl, rfl, rfl⟩
    exact hflag.trans (settle_kept _ _)

theorem abort_phase (f : Flight T) : f.abort.phase = f.phase := by
  unfold abort
  split_ifs
  · rfl
  · exact settle_phase _ _

theorem timeout_kept (f : Flight T) : f.Kept f.timeout := by
  unfold timeout
  split_ifs
  · exact Kept.refl f
  · have hflag : f.Kept { f with timeoutTriggered := true } := ⟨rfl, rfl, rfl, rfl, rfl⟩
    exact hflag.trans (settle_kept _ _)

theorem timeout_phase (f : Flight T) : f.timeout.phase = f.phase := by
  unfold timeout
  split_ifs
  · rfl
  · exact settle_phase _ _

theorem operate_kept (f : Flight T) : f.Kept f.operate := by
  unfold operate
  split_ifs <;> exact ⟨rfl, rfl, rfl, rfl, rfl⟩

theorem handle_kept (f : Flight T) (latest : Option CurrentResourceVersion)
    (result : OperationResult T) : f.Kept (f.handle latest result) := by
  have hphase : f.Kept { f with phase := .handled } := ⟨rfl, rfl, rfl, rfl, rfl⟩
  unfold handle
  dsimp only
  split
  · exact hphase
  · split
    · split
      · exact hphase.trans (settle_kept _ _)
      · split
        · exact hphase
        · split
          · exact hphase.trans (settle_kept _ _)
          · exact hphase.trans (settle_kept _ _)
    · split
      · exact hphase.trans (settle_kept _ _)
      · split
        · exact hphase.trans (settle_kept _ _)
        · unfold fail
          split_ifs <;> exact ⟨rfl, rfl, rfl, rfl, rfl⟩

theorem handle_phase (f : Flight T) (latest : Option CurrentResourceVersion)
    (result : OperationResult T) : (f.handle latest result).phase = .handled := by
  unfold handle
  dsimp only
  split
  · rfl
  · split
    · split
      · exact settle_phase _ _
      · split
        · rfl
        · split
          · exact settle_phase _ _
          · exact settle_phase _ _
    · split
      · exact settle_phase _ _
      · split
        · exact settle_phase _ _
        · unfold fail
          split_ifs <;> rfl

end Flight

/-! ## The invariant -/

variable {g : Flight T → Flight T}

namespace Coordinator

structure Sound (digest : String → String) (texts : Set String) (c : Coordinator T) : Prop where
  keyed : ∀ (i : Nat) (f : Flight T), c.started[i]? = some f →
    f.resourceKey = resourceKey f.request.tenantId f.request.resource ∧
      ∃ n ≤ c.legacyFlight, Keyed digest texts n f.request f.key f.supersessionKey
  alone : ∀ (i j : Nat) (f g : Flight T), c.started[i]? = some f → c.started[j]? = some g →
    f.key = g.key → f.request.scope = none → i = j
  flying : ∀ (i : Nat) (f : Flight T), c.started[i]? = some f → f.phase ≠ .finished →
    c.flights.get? f.key = some i
  owned : ∀ key i, c.flights.get? key = some i →
    ∃ f, c.started[i]? = some f ∧ f.key = key ∧ f.phase ≠ .finished
  latestTokens : ∀ resource v, c.latestByResource.get? resource = some v →
    v.fencingToken ≤ c.nextFencingToken
  latest : ∀ (i : Nat) (f : Flight T), c.started[i]? = some f → f.phase ≠ .finished →
    ∃ v, c.latestByResource.get? f.resourceKey = some v ∧ f.fencingToken ≤ v.fencingToken ∧
      (v.fencingToken = f.fencingToken → v.supersessionKey = f.supersessionKey)

variable {c : Coordinator T}

theorem fencingTokenFor_spec (h : c.Sound digest texts) (resource supersession : String) :
    let token := c.fencingTokenFor resource supersession
    c.nextFencingToken ≤ token.2 ∧ token.1 ≤ token.2 ∧
      ∀ v, c.latestByResource.get? resource = some v → v.fencingToken ≤ token.1 ∧
        (v.fencingToken = token.1 → v.supersessionKey = supersession) := by
  intro token
  have htoken : token = c.fencingTokenFor resource supersession := rfl
  unfold fencingTokenFor at htoken
  cases hlatest : c.latestByResource.get? resource with
  | none =>
    rw [hlatest] at htoken
    rw [htoken]
    exact ⟨Nat.le_succ _, le_refl _, nofun⟩
  | some current =>
    have hle := h.latestTokens resource current hlatest
    rw [hlatest] at htoken
    dsimp only at htoken
    split_ifs at htoken with hsame
    · rw [htoken]
      refine ⟨le_refl _, hle, ?_⟩
      rintro v hv
      cases hv
      exact ⟨le_refl _, fun _ => hsame⟩
    · rw [htoken]
      refine ⟨Nat.le_succ _, le_refl _, ?_⟩
      rintro v hv
      cases hv
      exact ⟨by omega, fun heq => by omega⟩

theorem getElem?_modify (c : Coordinator T) (i j : Nat) (g : Flight T → Flight T) :
    (c.modify i g).started[j]? = if i = j then (c.started[j]?).map g else c.started[j]? := by
  show (c.started.modify i g)[j]? = _
  rw [List.getElem?_modify]
  split_ifs <;> cases c.started[j]? <;> rfl

theorem getElem?_modify_cases {j : Nat} (hf : c.started[i]? = some f) (hf' : (c.modify i g).started[j]? = some f') :
    (j = i ∧ f' = g f) ∨ (j ≠ i ∧ c.started[j]? = some f') := by
  rw [getElem?_modify] at hf'
  split_ifs at hf' with hij
  · subst hij
    rw [hf] at hf'
    exact .inl ⟨rfl, (Option.some.inj hf').symm⟩
  · exact .inr ⟨fun h => hij h.symm, hf'⟩

theorem kept_modify (hf : c.started[i]? = some f) (hkept : f.Kept (g f))
    (hphase : (g f).phase = .finished → f.phase = .finished) {j : Nat} (hf' : (c.modify i g).started[j]? = some f') :
    ∃ f0, c.started[j]? = some f0 ∧ f0.Kept f' ∧ (f'.phase = .finished → f0.phase = .finished) := by
  rcases getElem?_modify_cases hf hf' with ⟨rfl, rfl⟩ | ⟨-, hold⟩
  · exact ⟨f, hf, hkept, hphase⟩
  · exact ⟨f', hold, Flight.Kept.refl f', id⟩

theorem Sound.modify (h : c.Sound digest texts) (hf : c.started[i]? = some f) (hkept : f.Kept (g f))
    (hlive : f.phase ≠ .finished) (hphase : (g f).phase ≠ .finished) : (c.modify i g).Sound digest texts := by
  have hold : ∀ {j : Nat} {f' : Flight T}, (c.modify i g).started[j]? = some f' →
      ∃ f0, c.started[j]? = some f0 ∧ f0.Kept f' ∧ (f'.phase = .finished → f0.phase = .finished) :=
    fun hf' => kept_modify hf hkept (fun h => absurd h hphase) hf'
  refine ⟨?_, ?_, ?_, ?_, h.latestTokens, ?_⟩
  · intro j f' hf'
    obtain ⟨f0, hf0, hkept0, -⟩ := hold hf'
    rw [hkept0.resourceKey, hkept0.request, hkept0.key, hkept0.supersessionKey]
    exact h.keyed j f0 hf0
  · intro j k f' g' hf' hg' hkey hscope
    obtain ⟨f0, hf0, hkept0, -⟩ := hold hf'
    obtain ⟨g0, hg0, hkept1, -⟩ := hold hg'
    rw [hkept0.key, hkept1.key] at hkey
    rw [hkept0.request] at hscope
    exact h.alone j k f0 g0 hf0 hg0 hkey hscope
  · intro j f' hf' hlive'
    rcases getElem?_modify_cases hf hf' with ⟨rfl, rfl⟩ | ⟨-, hsame⟩
    · rw [hkept.key]
      exact h.flying j f hf hlive
    · exact h.flying j f' hsame hlive'
  · intro key j hj
    obtain ⟨f0, hf0, hkey, hlive0⟩ := h.owned key j hj
    rw [getElem?_modify, hf0]
    by_cases hij : i = j
    · subst hij
      rw [if_pos rfl]
      obtain rfl := Option.some.inj (hf.symm.trans hf0)
      exact ⟨g f, rfl, hkept.key.trans hkey, hphase⟩
    · rw [if_neg hij]
      exact ⟨f0, rfl, hkey, hlive0⟩
  · intro j f' hf' hlive'
    rcases getElem?_modify_cases hf hf' with ⟨rfl, rfl⟩ | ⟨-, hsame⟩
    · rw [hkept.resourceKey, hkept.fencingToken, hkept.supersessionKey]
      exact h.latest j f hf hlive
    · exact h.latest j f' hsame hlive'

/-! ### Starting -/

def newFlight (c : Coordinator T) (request : NormalizedRequest) (key supersession : String) :
    Flight T :=
  let resource := resourceKey request.tenantId request.resource
  let flight : Flight T := {
    request := request
    key := key
    resourceKey := resource
    supersessionKey := supersession
    fencingToken := (c.fencingTokenFor resource supersession).1 }
  if request.aborted = some true then flight.abort else flight

theorem newFlight_kept (c : Coordinator T) (request : NormalizedRequest)
    (key supersession : String) :
    let f := c.newFlight request key supersession
    f.request = request ∧ f.key = key ∧ f.resourceKey = resourceKey request.tenantId request.resource ∧
      f.supersessionKey = supersession ∧
      f.fencingToken = (c.fencingTokenFor f.resourceKey supersession).1 ∧ f.phase = .scheduled := by
  unfold newFlight
  split_ifs
  · exact ⟨rfl, rfl, rfl, rfl, rfl, rfl⟩
  · exact ⟨rfl, rfl, rfl, rfl, rfl, rfl⟩

variable {request : NormalizedRequest} {key supersession : String}

theorem getElem?_start (hf : (c.start request key supersession).started[i]? = some f) : c.started[i]? = some f ∨
      (i = c.started.length ∧ f = c.newFlight request key supersession) := by
  have hf' : (c.started ++ [c.newFlight request key supersession])[i]? = some f := hf
  rw [List.getElem?_append] at hf'
  split_ifs at hf' with hlt
  · exact .inl hf'
  · rw [List.getElem?_singleton] at hf'
    split_ifs at hf' with hzero
    exact .inr ⟨by omega, (Option.some.inj hf').symm⟩

theorem getElem?_start_old (hf : c.started[i]? = some f) : (c.start request key supersession).started[i]? = some f :=
  (List.getElem?_append_left (List.getElem?_eq_some_iff.mp hf).1).trans hf

theorem getElem?_start_new : (c.start request key supersession).started[c.started.length]?
      = some (c.newFlight request key supersession) :=
  List.getElem?_concat_length

theorem latest_start (resource : String) : (c.start request key supersession).latestByResource.get? resource =
      if resource = resourceKey request.tenantId request.resource then
        some ⟨supersession, (c.fencingTokenFor resource supersession).1⟩
      else c.latestByResource.get? resource := by
  show (c.latestByResource.set _ _).get? resource = _
  split_ifs with h
  · subst h
    exact OrderedMap.get?_set_self _ _ _
  · exact OrderedMap.get?_set_of_ne _ _ h

theorem Sound.latest_start_mono (h : c.Sound digest texts) (request : NormalizedRequest)
    (key supersession : String) {resource : String} {v : CurrentResourceVersion} (hv : c.latestByResource.get? resource = some v) :
    ∃ v', (c.start request key supersession).latestByResource.get? resource = some v' ∧ v.fencingToken ≤ v'.fencingToken ∧
      (v'.fencingToken = v.fencingToken → v'.supersessionKey = v.supersessionKey) := by
  rw [latest_start]
  split_ifs with hresource
  · obtain ⟨-, -, hspec⟩ := fencingTokenFor_spec h resource supersession
    obtain ⟨hle, hsame⟩ := hspec v hv
    exact ⟨_, rfl, hle, fun heq => (hsame heq.symm).symm⟩
  · exact ⟨v, hv, le_refl _, fun _ => rfl⟩

theorem Sound.start (h : c.Sound digest texts) (hdigest : Set.InjOn digest texts) {n : Nat}
    (hkeyed : Keyed digest texts n request key supersession) (hn : n ≤ c.legacyFlight)
    (hfresh : c.flights.get? key = none)
    (hnumber : request.scope = none → ∀ (i : Nat) (f : Flight T), c.started[i]? = some f →
      f.key ≠ key) : (c.start request key supersession).Sound digest texts := by
  obtain ⟨hrequest, hkey, hresource, hsupersession, htoken, hphase⟩ :=
    newFlight_kept c request key supersession
  have hspec := fencingTokenFor_spec h (resourceKey request.tenantId request.resource) supersession
  refine ⟨?_, ?_, ?_, ?_, ?_, ?_⟩
  · intro i f hf
    rcases getElem?_start hf with hf | ⟨-, rfl⟩
    · exact h.keyed i f hf
    · rw [hrequest, hkey, hsupersession]
      exact ⟨hresource, n, hn, hkeyed⟩
  · intro i j f g hf hg hsame hscope
    rcases getElem?_start hf with hf | ⟨rfl, rfl⟩
    · rcases getElem?_start hg with hg | ⟨rfl, rfl⟩
      · exact h.alone i j f g hf hg hsame hscope
      · obtain ⟨-, m, -, hkeyed'⟩ := h.keyed i f hf
        have hscope' := (hkeyed'.same_key hdigest hkeyed (hsame.trans hkey)).1
        exact absurd (hsame.trans hkey) (hnumber (hscope'.symm.trans hscope) i f hf)
    · rcases getElem?_start hg with hg | ⟨rfl, -⟩
      · rw [hrequest] at hscope
        exact absurd (hsame.symm.trans hkey) (hnumber hscope j g hg)
      · rfl
  · intro i f hf hlive
    show (c.flights.set key c.started.length).get? f.key = some i
    rcases getElem?_start hf with hf | ⟨rfl, rfl⟩
    · have hne : f.key ≠ key := by
        intro heq
        have hflying := h.flying i f hf hlive
        rw [heq, hfresh] at hflying
        cases hflying
      rw [OrderedMap.get?_set_of_ne _ _ hne]
      exact h.flying i f hf hlive
    · rw [hkey]
      exact OrderedMap.get?_set_self _ _ _
  · intro key' i hi
    have hi' : (c.flights.set key c.started.length).get? key' = some i := hi
    by_cases heq : key' = key
    · subst heq
      rw [OrderedMap.get?_set_self] at hi'
      cases hi'
      exact ⟨_, getElem?_start_new, hkey, by rw [hphase]; nofun⟩
    · rw [OrderedMap.get?_set_of_ne _ _ heq] at hi'
      obtain ⟨f, hf, hrest⟩ := h.owned key' i hi'
      exact ⟨f, getElem?_start_old hf, hrest⟩
  · intro resource v hv
    rw [latest_start] at hv
    show v.fencingToken ≤ (c.fencingTokenFor _ supersession).2
    split_ifs at hv with heq
    · cases hv
      rw [heq]
      exact hspec.2.1
    · exact le_trans (h.latestTokens resource v hv) hspec.1
  · intro i f hf hlive
    rcases getElem?_start hf with hf | ⟨-, rfl⟩
    · obtain ⟨v, hv, hle, hsame⟩ := h.latest i f hf hlive
      obtain ⟨v', hv', hle', hsame'⟩ := h.latest_start_mono request key supersession hv
      refine ⟨v', hv', le_trans hle hle', fun heq => ?_⟩
      have hboth : v'.fencingToken = v.fencingToken ∧ v.fencingToken = f.fencingToken := by omega
      exact (hsame' hboth.1).trans (hsame hboth.2)
    · refine ⟨⟨supersession, (c.fencingTokenFor (resourceKey request.tenantId request.resource)
        supersession).1⟩, ?_, ?_, fun _ => hsupersession.symm⟩
      · rw [hresource, latest_start, if_pos rfl]
      · rw [htoken, hresource]

/-! ### Cleaning up -/

theorem Sound.key_ne (h : c.Sound digest texts) {j : Nat} (hf : c.started[i]? = some f)
    (hphase : f.phase = .handled) (hf' : c.started[j]? = some f') (hlive : f'.phase ≠ .finished) (hne : j ≠ i) :
    f'.key ≠ f.key := by
  intro hkey
  have hsame := h.flying j f' hf' hlive
  rw [hkey, h.flying i f hf (by rw [hphase]; nofun)] at hsame
  exact hne (Option.some.inj hsame).symm

/-- The latest version of a resource stays while another flight is in progress there. -/
theorem Sound.latest_cleanUp (h : c.Sound digest texts) {j : Nat} (hf : c.started[i]? = some f)
    (hphase : f.phase = .handled) (hf' : c.started[j]? = some f') (hlive : f'.phase ≠ .finished) (hne : j ≠ i) :
    (c.cleanUp i f).latestByResource.get? f'.resourceKey
      = c.latestByResource.get? f'.resourceKey := by
  have hkey := h.key_ne hf hphase hf' hlive hne
  unfold Coordinator.cleanUp
  dsimp only
  rw [if_pos (h.flying i f hf (by rw [hphase]; nofun))]
  split
  · rfl
  · next hnone =>
    have hresource : f'.resourceKey ≠ f.resourceKey := by
      intro heq
      apply hnone
      apply List.any_eq_true.mpr
      refine ⟨j, (OrderedMap.mem_values _).mpr ⟨f'.key, ?_⟩, ?_⟩
      · rw [OrderedMap.get?_erase_of_ne _ hkey]
        exact h.flying j f' hf' hlive
      · rw [hf']
        exact decide_eq_true heq
    exact OrderedMap.get?_erase_of_ne _ hresource

theorem getElem?_cleanUp {j : Nat} (hf : c.started[i]? = some f) (hf' : (c.cleanUp i f).started[j]? = some f') :
    (j = i ∧ f' = { f with phase := .finished }) ∨ (j ≠ i ∧ c.started[j]? = some f') :=
  getElem?_modify_cases (g := fun f => { f with phase := .finished }) hf hf'

theorem Sound.cleanUp (h : c.Sound digest texts) {i : Nat} {f : Flight T}
    (hf : c.started[i]? = some f) (hphase : f.phase = .handled) :
    (c.cleanUp i f).Sound digest texts := by
  have hflying : c.flights.get? f.key = some i := h.flying i f hf (by rw [hphase]; nofun)
  have hflights : (c.cleanUp i f).flights = c.flights.erase f.key := if_pos hflying
  have hold : ∀ {j : Nat} {f' : Flight T}, (c.cleanUp i f).started[j]? = some f' →
      ∃ f0, c.started[j]? = some f0 ∧ f0.Kept f' ∧ (f'.phase ≠ .finished → j ≠ i ∧ f0 = f') := by
    intro j f' hf'
    rcases getElem?_cleanUp hf hf' with ⟨rfl, rfl⟩ | ⟨hne, hsame⟩
    · exact ⟨f, hf, ⟨rfl, rfl, rfl, rfl, rfl⟩, fun hlive => absurd rfl hlive⟩
    · exact ⟨f', hsame, Flight.Kept.refl f', fun _ => ⟨hne, rfl⟩⟩
  refine ⟨?_, ?_, ?_, ?_, ?_, ?_⟩
  · intro j f' hf'
    obtain ⟨f0, hf0, hkept, -⟩ := hold hf'
    rw [hkept.resourceKey, hkept.request, hkept.key, hkept.supersessionKey]
    exact h.keyed j f0 hf0
  · intro j k f' g' hf' hg' hkey hscope
    obtain ⟨f0, hf0, hkept, -⟩ := hold hf'
    obtain ⟨g0, hg0, hkept', -⟩ := hold hg'
    rw [hkept.key, hkept'.key] at hkey
    rw [hkept.request] at hscope
    exact h.alone j k f0 g0 hf0 hg0 hkey hscope
  · intro j f' hf' hlive
    obtain ⟨f0, hf0, -, hrest⟩ := hold hf'
    obtain ⟨hne, rfl⟩ := hrest hlive
    rw [hflights, OrderedMap.get?_erase_of_ne _ (h.key_ne hf hphase hf0 hlive hne)]
    exact h.flying j f0 hf0 hlive
  · intro key j hj
    rw [hflights, OrderedMap.get?_erase] at hj
    split_ifs at hj with hkey
    obtain ⟨f0, hf0, hown, hlive⟩ := h.owned key j hj
    have hne : i ≠ j := by
      rintro rfl
      obtain rfl := Option.some.inj (hf.symm.trans hf0)
      exact hkey hown.symm
    refine ⟨f0, ?_, hown, hlive⟩
    show (c.modify i _).started[j]? = some f0
    rw [getElem?_modify, if_neg hne]
    exact hf0
  · intro resource v hv
    apply h.latestTokens resource v
    unfold Coordinator.cleanUp at hv
    dsimp only at hv
    rw [if_pos hflying] at hv
    split at hv
    · exact hv
    · rw [OrderedMap.get?_erase] at hv
      split_ifs at hv
      exact hv
  · intro j f' hf' hlive
    obtain ⟨f0, hf0, -, hrest⟩ := hold hf'
    obtain ⟨hne, rfl⟩ := hrest hlive
    rw [h.latest_cleanUp hf hphase hf0 hlive hne]
    exact h.latest j f0 hf0 hlive

/-! ### Requests -/

theorem validate_cases {c' : Coordinator T} {input : FencedValidationRequest} {request : NormalizedRequest}
    (h : c.Sound digest texts) (hrequest : normalizeRequest input = .ok request) (htexts : request.texts ⊆ texts)
    (hvalidate : c.validate digest input = (c', .ok i)) :
    (c' = c ∧ ∃ scope, request.scope = some scope ∧ c.flights.get? (digestKey digest (scopeText scope)) = some i) ∨
    ∃ (c₁ : Coordinator T) (n : Nat) (key supersession : String), c₁.Sound digest texts ∧ c₁.started = c.started ∧
      c₁.latestByResource = c.latestByResource ∧ c₁.flights = c.flights ∧
      c' = c₁.start request key supersession ∧ i = c.started.length ∧
      Keyed digest texts n request key supersession ∧ n ≤ c₁.legacyFlight ∧
      c₁.flights.get? key = none ∧
      (request.scope = none → ∀ (j : Nat) (f : Flight T), c₁.started[j]? = some f →
        f.key ≠ key ∧ f.supersessionKey ≠ supersession) := by
  have hfields := normalizeRequest_fromScope hrequest
  unfold validate at hvalidate
  rw [hrequest] at hvalidate
  dsimp only at hvalidate
  cases hscope : request.scope with
  | none =>
    rw [hscope] at hvalidate
    have hnew : ∀ (j : Nat) (f : Flight T), c.started[j]? = some f → f.key ≠ legacyKey (c.legacyFlight + 1) ∧
          f.supersessionKey ≠ legacyKey (c.legacyFlight + 1) := by
      intro j f hf
      obtain ⟨-, m, hm, hkeyed⟩ := h.keyed j f hf
      exact hkeyed.ne_legacyKey (Nat.lt_succ_of_le hm)
    have hfresh : c.flights.get? (legacyKey (c.legacyFlight + 1)) = none := by
      cases hget : c.flights.get? (legacyKey (c.legacyFlight + 1)) with
      | none => rfl
      | some j =>
        obtain ⟨f, hf, hkey, -⟩ := h.owned _ j hget
        exact absurd hkey (hnew j f hf).1
    rw [show "legacy-isolated:" ++ toString (c.legacyFlight + 1) = legacyKey (c.legacyFlight + 1)
      from rfl, hfresh] at hvalidate
    obtain ⟨hc, hi⟩ := Prod.mk.inj hvalidate
    refine .inr ⟨{ c with legacyFlight := c.legacyFlight + 1 }, c.legacyFlight + 1, _, _, ?_, rfl,
      rfl, rfl, hc.symm, (Except.ok.inj hi).symm, .legacy hscope, le_refl _, hfresh, fun _ => hnew⟩
    refine ⟨?_, h.alone, h.flying, h.owned, h.latestTokens, h.latest⟩
    intro j f hf
    obtain ⟨hresource, m, hm, hkeyed⟩ := h.keyed j f hf
    exact ⟨hresource, m, Nat.le_succ_of_le hm, hkeyed⟩
  | some scope =>
    obtain ⟨hnormal, -⟩ := hfields scope hscope
    rw [hscope] at hvalidate
    dsimp only at hvalidate
    rw [scopeKey_eq hnormal, supersessionKey_eq hnormal] at hvalidate
    dsimp only at hvalidate
    cases hget : c.flights.get? (digestKey digest (scopeText scope)) with
    | some j =>
      rw [hget] at hvalidate
      obtain ⟨hc, hi⟩ := Prod.mk.inj hvalidate
      cases hi
      exact .inl ⟨hc.symm, scope, rfl, hget⟩
    | none =>
      rw [hget] at hvalidate
      obtain ⟨hc, hi⟩ := Prod.mk.inj hvalidate
      exact .inr ⟨c, c.legacyFlight, _, _, h, rfl, rfl, rfl, hc.symm, (Except.ok.inj hi).symm,
        .complete hscope hfields htexts, le_refl _, hget, fun hnone => by cases hnone⟩

theorem validate_refused {c' : Coordinator T} {input : FencedValidationRequest} {err : JsError}
    (hvalidate : c.validate digest input = (c', .error err)) : c' = c := by
  unfold validate at hvalidate
  cases hrequest : normalizeRequest input with
  | error err' =>
    rw [hrequest] at hvalidate
    exact (Prod.mk.inj hvalidate).1.symm
  | ok request =>
    rw [hrequest] at hvalidate
    dsimp only at hvalidate
    cases hscope : request.scope with
    | none =>
      rw [hscope] at hvalidate
      dsimp only at hvalidate
      split at hvalidate
      · cases (Prod.mk.inj hvalidate).2
      · cases (Prod.mk.inj hvalidate).2
    | some scope =>
      obtain ⟨hnormal, -⟩ := normalizeRequest_fromScope hrequest scope hscope
      rw [hscope] at hvalidate
      dsimp only at hvalidate
      rw [scopeKey_eq hnormal, supersessionKey_eq hnormal] at hvalidate
      dsimp only at hvalidate
      split at hvalidate
      · cases (Prod.mk.inj hvalidate).2
      · cases (Prod.mk.inj hvalidate).2

end Coordinator

end Premise.SingleFlight
