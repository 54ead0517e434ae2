import Premise.SingleFlight.Proofs.WatchedProofs

/-!
# The fence

A rival request that starts a flight raises the token of the resource above the flights in progress, and
a flight whose token is not the latest one answers `UNKNOWN`.
-/

namespace Premise.SingleFlight

open Collections Control Js Protocol ValidationScope

variable {T : Type} {digest : String → String} {texts : Set String}

namespace Watched

variable {w : Watched T}

/-! ## The fence -/

/-- The latest version of the resource has a higher token than the flight. -/
def Superseded (w : Watched T) (f : Flight T) : Prop :=
  ∃ v, w.coordinator.latestByResource.get? f.resourceKey = some v ∧ f.fencingToken < v.fencingToken

/-- A flight that has been overtaken has answered nothing but `UNKNOWN`, and is superseded until its
    source has been heard. -/
def Fence (w : Watched T) : Prop :=
  ∀ i f, w.flight? i = some f → w.Overtaken i → f.Silent ∧
    (f.settled = none → f.phase ≠ .handled → f.phase ≠ .finished → w.Superseded f)

theorem Sound.superseded (h : w.Sound digest texts) {i : Nat} {f : Flight T}
    (hf : w.flight? i = some f) (hlive : f.phase ≠ .finished)
    (hlatest : w.coordinator.latestByResource.get? f.resourceKey
      ≠ some ⟨f.supersessionKey, f.fencingToken⟩) : w.Superseded f := by
  obtain ⟨v, hv, hle, hsame⟩ := h.coordinator.latest i f hf hlive
  refine ⟨v, hv, lt_of_le_of_ne hle (fun heq => hlatest ?_)⟩
  rw [hv]
  obtain ⟨supersession, token⟩ := v
  exact congrArg some (CurrentResourceVersion.mk.injEq .. ▸ ⟨hsame heq.symm, heq.symm⟩)

theorem Fence.modify (h : w.Fence) {i : Nat} {f : Flight T} {g : Flight T → Flight T}
    (hf : w.flight? i = some f) {w' : Watched T}
    (hcoordinator : w'.coordinator = w.coordinator.modify i g)
    (hsettled : ∀ j, w'.Overtaken j → w.Overtaken j)
    (hown : w.Overtaken i → (g f).Silent ∧ ((g f).settled = none → (g f).phase ≠ .handled →
      (g f).phase ≠ .finished → w.Superseded (g f))) : w'.Fence := by
  have hlatest : w'.coordinator.latestByResource = w.coordinator.latestByResource := by
    rw [hcoordinator]
    rfl
  intro j f' hf' hovertaken
  unfold Superseded
  rw [hlatest]
  unfold flight? at hf'
  rw [hcoordinator] at hf'
  rcases Coordinator.getElem?_modify_cases hf hf' with ⟨rfl, rfl⟩ | ⟨-, hold⟩
  · exact hown (hsettled j hovertaken)
  · exact h j f' hold (hsettled j hovertaken)

theorem Fence.validate (h : w.Fence) (hw : w.Sound digest texts)
    (hdigest : Set.InjOn digest texts) {input : FencedValidationRequest}
    {request : NormalizedRequest} {c : Coordinator T} {i : Nat}
    (hrequest : normalizeRequest input = .ok request) (htexts : request.texts ⊆ texts)
    (hvalidate : w.coordinator.validate digest input = (c, .ok i))
    (hjoins : c.started.length = w.coordinator.started.length → ∀ j f, w.Answerable j f → ¬ f.request.Rival request) :
    Fence { w with coordinator := c, requests := w.requests ++ [(request, i)] } := by
  intro j f hf hovertaken
  obtain ⟨a, b, r, r', i', ha, hb, hlt, hwindow, hrival⟩ := hovertaken
  have hfields := normalizeRequest_fromScope hrequest
  rcases Coordinator.validate_cases hw.coordinator hrequest htexts hvalidate with
    ⟨rfl, -⟩ |
    ⟨c₁, n, key, supersession, hsound, hstarted, hlatest, -, rfl, rfl, hkeyed, hn, -, hnumber⟩
  · rcases getElem?_append_request ha with ha' | ⟨rfl, -⟩
    · rcases getElem?_append_request hb with hb' | ⟨rfl, heq⟩
      · exact h j f hf ⟨a, b, r, r', i', ha', hb', hlt, hwindow, hrival⟩
      · cases heq
        obtain ⟨f', hf', halike⟩ := hw.requested a r j ha'
        obtain rfl := Option.some.inj (hf.symm.trans hf')
        have hnone : w.sourceSettled j = none := by
          cases hsettled : w.sourceSettled j with
          | none => rfl
          | some n =>
            have hle := (hw.times j n hsettled).1
            have hlt := hwindow n hsettled
            exact absurd hlt (by omega)
        refine ⟨(hw.timed j f hf).silent hnone, fun hopen _ hlive => ?_⟩
        apply hw.superseded hf hlive
        intro hlatest
        exact hjoins rfl j f ⟨hf, hnone, hopen, hlatest⟩ (halike.rival hrival)
    · have hlt' := (List.getElem?_eq_some_iff.mp hb).1
      rw [List.length_append] at hlt'
      exact absurd hlt (by simp only [List.length_singleton] at hlt'; omega)
  · have hmono : w.Superseded f → ∃ v, (c₁.start request key supersession).latestByResource.get?
        f.resourceKey = some v ∧ f.fencingToken < v.fencingToken := by
      rintro ⟨v, hv, hlt⟩
      rw [← hlatest] at hv
      obtain ⟨v', hv', hle, -⟩ := hsound.latest_start_mono request key supersession hv
      exact ⟨v', hv', lt_of_lt_of_le hlt hle⟩
    rcases getElem?_append_request ha with ha' | ⟨rfl, -⟩
    · obtain ⟨f', hf', halike⟩ := hw.requested a r j ha'
      have hsame : f = f' := by
        have hold : (c₁.start request key supersession).started[j]? = some f' := by
          apply Coordinator.getElem?_start_old
          rw [hstarted]
          exact hf'
        exact Option.some.inj (hf.symm.trans hold)
      subst hsame
      rcases getElem?_append_request hb with hb' | ⟨rfl, heq⟩
      · obtain ⟨hsilent, hsuperseded⟩ := h j f hf' ⟨a, b, r, r', i', ha', hb', hlt, hwindow, hrival⟩
        exact ⟨hsilent, fun hopen hhandled hlive => hmono (hsuperseded hopen hhandled hlive)⟩
      · obtain ⟨rfl, rfl⟩ := Prod.mk.inj heq
        have hnone : w.sourceSettled j = none := by
          cases hsettled : w.sourceSettled j with
          | none => rfl
          | some n =>
            have hle := (hw.times j n hsettled).1
            have hlt := hwindow n hsettled
            exact absurd hlt (by omega)
        refine ⟨(hw.timed j f hf').silent hnone, fun _ _ hlive => ?_⟩
        obtain ⟨hresource, m, -, hkeyed'⟩ := hw.coordinator.keyed j f hf'
        have hrival' := halike.rival hrival
        have hne : f.supersessionKey ≠ supersession := by
          by_cases hscope : r'.scope = none
          · exact (hnumber hscope j f (by rw [hstarted]; exact hf')).2
          · exact hkeyed'.rival hdigest hkeyed hrival' fun _ hnone => absurd hnone hscope
        obtain ⟨v, hv, hle, hsame⟩ := hw.coordinator.latest j f hf' hlive
        rw [← hlatest] at hv
        obtain ⟨-, -, hspec⟩ := Coordinator.fencingTokenFor_spec hsound f.resourceKey supersession
        obtain ⟨hle', hsame'⟩ := hspec v hv
        refine ⟨⟨supersession, (c₁.fencingTokenFor f.resourceKey supersession).1⟩, ?_, ?_⟩
        · show (c₁.start r' key supersession).latestByResource.get? f.resourceKey = _
          rw [Coordinator.latest_start, if_pos]
          rw [hresource, hrival'.1, hrival'.2.1]
        · apply lt_of_le_of_ne (le_trans hle hle')
          intro heq
          have hboth : v.fencingToken = f.fencingToken := by omega
          exact hne ((hsame hboth).symm.trans (hsame' (hboth.trans heq)))
    · have hlt' := (List.getElem?_eq_some_iff.mp hb).1
      rw [List.length_append] at hlt'
      exact absurd hlt (by simp only [List.length_singleton] at hlt'; omega)

theorem Fence.step (h : w.Fence) (hw : w.Sound digest texts) (hdigest : Set.InjOn digest texts)
    {i : FlightStep T} {w' : Watched T} (hstep : Step digest texts w i w')
    (hjoins : w.JoinsSettled i w') : w'.Fence := by
  cases hstep with
  | validate hrequest htexts hvalidate =>
    exact h.validate hw hdigest hrequest htexts hvalidate (hjoins _ hrequest)
  | refuse hvalidate =>
    rw [Coordinator.validate_refused hvalidate]
    exact h
  | @abort i f hf _ hlive =>
    refine h.modify hf rfl (fun _ ho => ho) (fun ho => ⟨?_, fun hopen => ?_⟩)
    · exact Flight.abort_silent (h i f hf ho).1
    · have hsome := f.abort_isSome
      rw [hopen] at hsome
      cases hsome
  | @timeout i f hf _ hlive =>
    refine h.modify hf rfl (fun _ ho => ho) (fun ho => ⟨?_, fun hopen => ?_⟩)
    · exact Flight.timeout_silent (h i f hf ho).1
    · have hsome := f.timeout_isSome
      rw [hopen] at hsome
      cases hsome
  | @operate i f hf hphase =>
    refine h.modify hf rfl (fun _ ho => ho) (fun ho => ?_)
    obtain ⟨hsilent, hsuperseded⟩ := h i f hf ho
    have hkept := f.operate_kept
    refine ⟨?_, fun hopen _ _ => ?_⟩
    · unfold Flight.Silent
      rw [f.operate_settled]
      exact hsilent
    · rw [f.operate_settled] at hopen
      unfold Superseded
      rw [hkept.resourceKey, hkept.fencingToken]
      exact hsuperseded hopen (by rw [hphase]; nofun) (by rw [hphase]; nofun)
  | @sourceSettles i f result hf hphase =>
    refine h.modify (g := fun f => { f with phase := .returned result }) hf rfl ?_ (fun ho => ?_)
    · rintro j ⟨a, b, r, r', i', ha, hb, hlt, hwindow, hrival⟩
      refine ⟨a, b, r, r', i', ha, hb, hlt, ?_, hrival⟩
      intro n hn
      by_cases hij : j = i
      · subst hij
        rw [(hw.timed j f hf).unsettled (Or.inr hphase)] at hn
        cases hn
      · apply hwindow n
        show Function.update w.sourceSettled i (some w.requests.length) j = some n
        rw [Function.update_of_ne hij]
        exact hn
    · obtain ⟨hsilent, hsuperseded⟩ := h i f hf ho
      exact ⟨hsilent, fun hopen _ _ =>
        hsuperseded hopen (by rw [hphase]; nofun) (by rw [hphase]; nofun)⟩
  | @handle i f result hf hphase =>
    refine h.modify (g := fun _ => f.handle _ result) hf rfl (fun _ ho => ho) (fun ho => ?_)
    obtain ⟨hsilent, hsuperseded⟩ := h i f hf ho
    refine ⟨?_, fun _ hhandled => absurd (f.handle_phase _ _) hhandled⟩
    by_cases hsettled : f.settled.isSome = true
    · rw [Flight.handle_of_settled hsettled]
      exact hsilent
    · obtain ⟨v, hv, hlt⟩ := hsuperseded (Option.not_isSome_iff_eq_none.mp hsettled)
        (by rw [hphase]; nofun) (by rw [hphase]; nofun)
      apply Flight.handle_fenced hsilent
      intro hlatest
      rw [hv] at hlatest
      cases hlatest
      exact Nat.lt_irrefl _ hlt
  | @cleanUp i f hf hphase =>
    intro j f' hf' ho
    have ho' : w.Overtaken j := ho
    rcases Coordinator.getElem?_cleanUp hf hf' with ⟨rfl, rfl⟩ | ⟨hne, hold⟩
    · exact ⟨(h j f hf ho').1, fun _ _ hlive => absurd rfl hlive⟩
    · obtain ⟨hsilent, hsuperseded⟩ := h j f' hold ho'
      refine ⟨hsilent, fun hopen hhandled hlive => ?_⟩
      unfold Superseded
      rw [hw.coordinator.latest_cleanUp hf hphase hold hlive hne]
      exact hsuperseded hopen hhandled hlive

theorem Fence.reachable (hdigest : Set.InjOn digest texts)
    (h : ((system T digest texts).restrict JoinsSettled).Reachable w) : w.Fence := by
  have hboth : w.Sound digest texts ∧ w.Fence := by
    apply h.invariant (fun w => w.Sound digest texts ∧ w.Fence)
    · rintro w ⟨defaultTimeoutMs, rfl⟩
      refine ⟨Sound.initial defaultTimeoutMs, ?_⟩
      intro i f hf
      cases hf
    · rintro w i w' ⟨hsound, hfence⟩ ⟨hstep, hjoins⟩
      exact ⟨hsound.step hdigest hstep, hfence.step hsound hdigest hstep hjoins⟩
  exact hboth.2

end Watched

namespace Watched

variable {w : Watched T} {i : Nat} {f : Flight T}

/-- In a later state in which no request has been made in between, the callers of the flight `i` have
    been given an outcome other than `UNKNOWN`. -/
def MayAnswer (digest : String → String) (texts : Set String) (w : Watched T) (i : Nat) : Prop :=
  ∃ w', (system T digest texts).Reachable w' ∧ w'.requests = w.requests ∧
    w'.sourceSettled i = some w.requests.length ∧ ¬ w'.Withheld i

theorem mayAnswer_of_calling (h : (system T digest texts).Reachable w) (hf : w.flight? i = some f)
    (hphase : f.phase = .calling) (hopen : f.settled = none)
    (hlatest : w.coordinator.latestByResource.get? f.resourceKey
      = some ⟨f.supersessionKey, f.fencingToken⟩) : w.MayAnswer digest texts i := by
  let outcome : FencedValidationOutcome T := { result := .unchanged, fencingToken := f.fencingToken }
  let f' : Flight T := { f with phase := .returned (.outcome (some outcome)) }
  have hstep := @Step.sourceSettles T digest texts w i f (.outcome (some outcome)) hf hphase
  have hsettles := System.Reachable.step h hstep
  have hf' : (w.modify i (fun f => { f with phase := .returned (.outcome (some outcome)) })).flight? i
      = some f' := by
    show (w.coordinator.modify i _).started[i]? = some f'
    rw [Coordinator.getElem?_modify, if_pos rfl, show w.coordinator.started[i]? = some f from hf]
    rfl
  have hhandle := System.Reachable.step hsettles (Step.handle hf' rfl)
  refine ⟨_, hhandle, rfl, Function.update_self _ _ _, ?_⟩
  intro hwithheld
  have hgiven : (f'.handle (w.coordinator.latestByResource.get? f'.resourceKey)
      (.outcome (some outcome))).settled = some (.outcome outcome) := by
    rw [show w.coordinator.latestByResource.get? f'.resourceKey = some ⟨f'.supersessionKey, f'.fencingToken⟩ from hlatest]
    exact Flight.handle_latest hopen rfl
  have hflight : ((w.modify i (fun f =>
      { f with phase := .returned (.outcome (some outcome)) })).coordinator.modify i
      (fun _ => f'.handle (w.coordinator.latestByResource.get? f'.resourceKey)
        (.outcome (some outcome)))).started[i]? = some (f'.handle
          (w.coordinator.latestByResource.get? f'.resourceKey) (.outcome (some outcome))) := by
    rw [Coordinator.getElem?_modify, if_pos rfl, show (w.modify i (fun f =>
      { f with phase := .returned (.outcome (some outcome)) })).coordinator.started[i]? = some f'
      from hf']
    rfl
  have hunknown := hwithheld _ hflight outcome hgiven
  cases hunknown

theorem Answerable.mayAnswer (hdigest : Set.InjOn digest texts)
    (h : (system T digest texts).Reachable w) (ha : w.Answerable i f) :
    w.MayAnswer digest texts i := by
  obtain ⟨hf, hnone, hopen, hlatest⟩ := ha
  have htimed := (Sound.reachable hdigest h).timed i f hf
  rcases htimed.waiting hnone hopen with hphase | hphase
  · have hflags : (f.abortTriggered || f.timeoutTriggered) = false := by
      cases hflags : f.abortTriggered || f.timeoutTriggered with
      | false => rfl
      | true =>
        have hsome := htimed.aborted (Bool.or_eq_true_iff.mp hflags)
        rw [hopen] at hsome
        cases hsome
    have hoperate : f.operate = { f with phase := .calling } := by
      unfold Flight.operate
      rw [hflags]
      rfl
    have hcalled := System.Reachable.step h (Step.operate hf hphase)
    have hf' : (w.modify i (fun f => f.operate)).flight? i = some { f with phase := .calling } := by
      show (w.coordinator.modify i _).started[i]? = _
      rw [Coordinator.getElem?_modify, if_pos rfl, show w.coordinator.started[i]? = some f from hf, ← hoperate]
      rfl
    have hmay := mayAnswer_of_calling hcalled hf' rfl hopen hlatest
    exact hmay
  · exact mayAnswer_of_calling h hf hphase hopen hlatest

end Watched

/-- What a coordinator promises, where the digests of the texts in use are all different. -/
theorem fenced (T : Type) (digest : String → String) (texts : Set String)
    (hdigest : Set.InjOn digest texts) : Fenced T digest texts where
  fence := fun w hw i hovertaken f hf =>
    ((Watched.Fence.reachable hdigest hw) i f hf hovertaken).1
  sharing := by
    intro w hw i f hf hlive scope hscope input request hrequest hsame
    have hsound := Watched.Sound.reachable hdigest hw
    have hfields := normalizeRequest_fromScope hrequest
    obtain ⟨hnormal, -⟩ := hfields scope hsame
    obtain ⟨-, n, -, hkeyed⟩ := hsound.coordinator.keyed i f hf
    have hflying := hsound.coordinator.flying i f hf hlive
    have hkey : f.key = digestKey digest (scopeText scope) := by
      generalize f.key = key at hkeyed
      generalize f.supersessionKey = supersession at hkeyed
      cases hkeyed with
      | legacy hnone => exact absurd (hnone.symm.trans hscope) nofun
      | complete hscope' _ _ =>
        obtain rfl := Option.some.inj (hscope'.symm.trans hscope)
        rfl
    rw [hkey] at hflying
    unfold Coordinator.validate
    rw [hrequest]
    dsimp only
    rw [hsame]
    dsimp only
    rw [scopeKey_eq hnormal]
    dsimp only
    rw [hflying]
  one_call := fun w hw => (Watched.Sound.reachable hdigest hw).calls_nodup
  isolated := by
    intro w hw j k r r' i hne hj hk
    have hsound := Watched.Sound.reachable hdigest hw
    obtain ⟨f, hf, halike⟩ := hsound.requested j r i hj
    obtain ⟨f', hf', halike'⟩ := hsound.requested k r' i hk
    obtain rfl := Option.some.inj (hf.symm.trans hf')
    exact ⟨halike.scope.trans halike'.scope.symm, hsound.lone j k r r' i hne hj hk⟩

/-! ## A request that joins -/

/-- One resource at the version `token`. -/
def scopeAt (token : String) : PremiseValidationScope where
  tenantId := "t"
  resourceId := "r"
  incarnationId := "i"
  versionScheme := "git"
  versionToken := token
  validatorId := "v"
  authorizationContextDigest := "a"
  policyDigest := "p"
  queryDigest := "q"
  scopes := ["read"]
  changeSetDigest := none
  causalFrontier := []

/-- The texts of the versions 1 and 2, with their SHA-256 digests. -/
def digestTable : List (String × String) :=
  [(String.ofList (scopeText (scopeAt "1")),
      "a58c2b47a12190cc5f02b33a1ecde7546c0e80616fe2b71654f9478e34000986"),
    (String.ofList (supersessionText (scopeAt "1")),
      "b8fa4b8f6249f6cdcf609fd654b79059b19f4d4f0d39b88423d806a0dbb75a74"),
    (String.ofList (scopeText (scopeAt "2")),
      "2abbc71857b0fe8944cf70f01e76025a7649b21d816ac40baccefab350eeb2b6"),
    (String.ofList (supersessionText (scopeAt "2")),
      "32dfe2f4a9190933d94a27b1e32a501fdaf783aadbdb11103604da64d8afe598")]

def tableDigest (text : String) : String :=
  ((digestTable.find? (fun entry => entry.1 = text)).map Prod.snd).getD ""

def tableTexts : Set String := fun text => text ∈ digestTable.map Prod.fst

theorem digestTable_nodup : (digestTable.map Prod.fst).Nodup := by
  have hscopes : scopeAt "1" ≠ scopeAt "2" := by decide
  have hsupersessions : supersessionText (scopeAt "1") ≠ supersessionText (scopeAt "2") := by
    intro h
    exact absurd (supersessionText_eq h).2.2.2.2 (by decide)
  have htexts : [scopeText (scopeAt "1"), supersessionText (scopeAt "1"), scopeText (scopeAt "2"),
      supersessionText (scopeAt "2")].Nodup := by
    simp only [List.nodup_cons, List.mem_cons, List.not_mem_nil, or_false, not_or, not_false_eq_true,
      List.nodup_nil, and_true, scopeText_injective.eq_iff]
    exact ⟨⟨scopeText_ne_supersessionText _ _, hscopes, scopeText_ne_supersessionText _ _⟩,
      ⟨(scopeText_ne_supersessionText _ _).symm, hsupersessions⟩, scopeText_ne_supersessionText _ _⟩
  exact List.Nodup.map (f := String.ofList) (fun _ _ h => String.ofList_injective h) htexts

theorem tableDigest_of_mem {text digest : String} (h : (text, digest) ∈ digestTable) : tableDigest text = digest := by
  unfold tableDigest
  rw [OrderedMap.find?_of_mem digestTable_nodup h, Option.map_some, Option.getD_some]

theorem tableDigest_injOn : Set.InjOn tableDigest tableTexts := by
  have hdigests : (digestTable.map Prod.snd).Nodup := by decide +kernel
  intro a ha b hb hab
  obtain ⟨⟨text, digest⟩, hp, rfl⟩ := List.mem_map.mp ha
  obtain ⟨⟨text', digest'⟩, hq, rfl⟩ := List.mem_map.mp hb
  rw [tableDigest_of_mem hp, tableDigest_of_mem hq] at hab
  exact congrArg Prod.fst (List.inj_on_of_nodup_map hdigests hp hq hab)

theorem fenced_table : Fenced Nat tableDigest tableTexts :=
  fenced Nat tableDigest tableTexts tableDigest_injOn

namespace Watched

/-- Ask for the version `token`. -/
def ask (w : Watched Nat) (token : String) : Watched Nat :=
  match normalizeRequest { scope := some (scopeAt token) },
    w.coordinator.validate tableDigest { scope := some (scopeAt token) } with
  | .ok request, (c, .ok i) => { w with coordinator := c, requests := w.requests ++ [(request, i)] }
  | _, _ => w

theorem ask_reachable {w : Watched Nat} (h : (system Nat tableDigest tableTexts).Reachable w)
    {token : String} (htoken : token ∈ ["1", "2"]) :
    (system Nat tableDigest tableTexts).Reachable (w.ask token) := by
  unfold ask
  split
  · next request c i hrequest hvalidate =>
    refine .step h (.validate hrequest ?_ hvalidate)
    rintro text ⟨scope, hmem, htext⟩
    obtain rfl : scopeAt token = scope :=
      Option.some.inj ((normalizeRequest_scope hrequest rfl).symm.trans hmem)
    rcases List.mem_cons.mp htoken with rfl | htoken
    · rcases htext with rfl | rfl
      · exact List.mem_cons_self
      · exact List.mem_cons_of_mem _ List.mem_cons_self
    · obtain rfl := List.mem_singleton.mp htoken
      rcases htext with rfl | rfl
      · exact List.mem_cons_of_mem _ (List.mem_cons_of_mem _ List.mem_cons_self)
      · exact List.mem_cons_of_mem _ (List.mem_cons_of_mem _ (List.mem_cons_of_mem _ List.mem_cons_self))
  · exact h

/-- What `ask` asks for. -/
def requestAt (token : String) : NormalizedRequest :=
  ⟨"t", "r", ⟨"git", token⟩, some (scopeAt token), none, none⟩

/-- Version 2 is asked for, then version 1, then version 2 again. -/
def askedAgain : Watched Nat := ((ask { coordinator := {} } "2").ask "1").ask "2"

theorem askedAgain_reachable : (system Nat tableDigest tableTexts).Reachable askedAgain := by
  have hinit : (system Nat tableDigest tableTexts).Reachable { coordinator := {} } :=
    .init ⟨none, rfl⟩
  exact ask_reachable (ask_reachable (ask_reachable hinit (by decide)) (by decide)) (by decide)

/-- The keys of the versions 1 and 2, and the keys of what they may supersede. -/
def keysOf (token : String) : String × String :=
  if token = "1" then ("sha256:a58c2b47a12190cc5f02b33a1ecde7546c0e80616fe2b71654f9478e34000986",
    "sha256:b8fa4b8f6249f6cdcf609fd654b79059b19f4d4f0d39b88423d806a0dbb75a74")
  else ("sha256:2abbc71857b0fe8944cf70f01e76025a7649b21d816ac40baccefab350eeb2b6",
    "sha256:32dfe2f4a9190933d94a27b1e32a501fdaf783aadbdb11103604da64d8afe598")

theorem normalizeRequest_scopeAt {token : String} (htoken : token ∈ ["1", "2"]) :
    normalizeRequest { scope := some (scopeAt token) } = .ok (requestAt token) := by
  rcases List.mem_pair.mp htoken with rfl | rfl
  · decide +kernel
  · decide +kernel

theorem scopeKeys {token : String} (htoken : token ∈ ["1", "2"]) :
    premiseValidationScopeKey tableDigest (scopeAt token) = .ok (keysOf token).1 ∧
      premiseValidationSupersessionKey tableDigest (scopeAt token) = .ok (keysOf token).2 := by
  have hnormal : normalizePremiseValidationScope (scopeAt token) = .ok (scopeAt token) := by
    rcases List.mem_pair.mp htoken with rfl | rfl
    · decide +kernel
    · decide +kernel
  unfold premiseValidationScopeKey premiseValidationSupersessionKey canonicalPremiseValidationScope
    canonicalPremiseValidationSupersessionScope
  rw [hnormal]
  simp only [Except.map]
  rcases List.mem_pair.mp htoken with rfl | rfl
  · rw [tableDigest_of_mem (List.mem_cons_self), tableDigest_of_mem (List.mem_cons_of_mem _ List.mem_cons_self)]
    exact ⟨rfl, rfl⟩
  · rw [tableDigest_of_mem (List.mem_cons_of_mem _ (List.mem_cons_of_mem _ List.mem_cons_self)),
      tableDigest_of_mem (List.mem_cons_of_mem _ (List.mem_cons_of_mem _ (List.mem_cons_of_mem _ List.mem_cons_self)))]
    exact ⟨rfl, rfl⟩

theorem ask_eq (w : Watched Nat) {token : String} (htoken : token ∈ ["1", "2"]) :
    w.ask token = match w.coordinator.flights.get? (keysOf token).1 with
      | some i => { w with requests := w.requests ++ [(requestAt token, i)] }
      | none => { w with
          coordinator := w.coordinator.start (requestAt token) (keysOf token).1 (keysOf token).2
          requests := w.requests ++ [(requestAt token, w.coordinator.started.length)] } := by
  obtain ⟨hkey, hsupersession⟩ := scopeKeys htoken
  unfold ask Coordinator.validate
  rw [normalizeRequest_scopeAt htoken]
  simp only [requestAt, hkey, hsupersession]
  cases w.coordinator.flights.get? (keysOf token).1 with
  | some | none => rfl

theorem askedAgain_spec : (∃ f, askedAgain.Answerable 1 f) ∧
    askedAgain.requests = [(requestAt "2", 0), (requestAt "1", 1), (requestAt "2", 0)] := by
  have hspec : (askedAgain.flight? 1).any (fun f => decide (f.settled = none ∧
      askedAgain.coordinator.latestByResource.get? f.resourceKey
        = some ⟨f.supersessionKey, f.fencingToken⟩ ∧ askedAgain.sourceSettled 1 = none ∧
      askedAgain.requests = [(requestAt "2", 0), (requestAt "1", 1), (requestAt "2", 0)])) = true := by
    unfold askedAgain
    rw [ask_eq { coordinator := {} } (by decide), ask_eq _ (by decide), ask_eq _ (by decide)]
    decide +kernel
  obtain ⟨f, hf, hdecide⟩ := (Option.any_eq_true _ _).mp hspec
  obtain ⟨hopen, hlatest, hnone, hrequests⟩ := of_decide_eq_true hdecide
  exact ⟨⟨f, hf, hnone, hopen, hlatest⟩, hrequests⟩

end Watched

open Watched in
/-- The last request joins the flight of the first one, and does not fence the flight of version 1. -/
theorem joining_does_not_fence : ¬ ∀ w, (system Nat tableDigest tableTexts).Reachable w →
    ∀ i, w.Overtaken i → w.Withheld i := by
  intro h
  obtain ⟨⟨f, hanswerable⟩, hasked⟩ := askedAgain_spec
  obtain ⟨w, hw, hrequests, hsource, hgiven⟩ :=
    hanswerable.mayAnswer tableDigest_injOn askedAgain_reachable
  rw [hasked] at hrequests hsource
  apply hgiven
  apply h w hw 1
  refine ⟨1, 2, requestAt "1", requestAt "2", 0, ?_, ?_, by decide, ?_, rfl, rfl, ?_⟩
  · rw [hrequests]
    rfl
  · rw [hrequests]
    rfl
  · intro n hn
    obtain rfl := Option.some.inj (hsource.symm.trans hn)
    decide
  · exact Or.inl (by decide)

end Premise.SingleFlight
