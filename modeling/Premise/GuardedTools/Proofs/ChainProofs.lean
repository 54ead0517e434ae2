import Premise.GuardedTools.CallSpec
import Premise.GuardedTools.Proofs.ToolProofs

/-!
# The callback is called at the end of a chain

What a tool knows of its check results, of its proofs and of its actions has an origin in the log. A
step adds one of them at most, together with the step that is its origin.
-/

namespace Premise.GuardedTools

open Collections Control Js Protocol

namespace SharedTools

variable {R : Type} {w w' : SharedTools R} {log : List (Event R)}

theorem requestOf_ok {t : Nat} {input : PassedObject} {action : JsValue} {idempotencyKey : String}
    {request : ActionRequest}
    (h : w.requestOf t input action idempotencyKey = .ok request) :
    (w.tools t).ready.get? input.ref = some ⟨request.resource, request.expectedVersion⟩ ∧
      request.idempotencyKey = idempotencyKey ∧ request.action = action := by
  unfold requestOf at h
  cases hstored : (w.tools t).ready.get? input.ref with
  | none =>
    rw [hstored] at h
    cases h
  | some stored =>
    rw [hstored] at h
    dsimp only at h
    split_ifs at h with hresource
    cases h
    have hsame : stored.resource = resourceFrom input.resource :=
      not_not.mp (fun hne => hresource (Or.inl hne))
    exact ⟨by rw [← hsame], rfl, rfl⟩

theorem act_cases (w : SharedTools R) (t : Nat) (input : PassedObject) (action : JsValue)
    (idempotencyKey : String) : (w.act t input action idempotencyKey).1 = w ∨
      ∃ request inFlight store, w.requestOf t input action idempotencyKey = .ok request ∧
        (w.act t input action idempotencyKey).1 = { w.updateTool t (fun tool =>
          { tool with inFlight := inFlight }) with
          store := store
          actions := w.actions ++ [⟨t, request, .scheduled⟩] } := by
  unfold act
  cases hrequest : w.requestOf t input action idempotencyKey with
  | error refused => exact .inl rfl
  | ok request =>
    dsimp only
    unfold actOn
    cases (w.tools t).inFlight.get? request.key with
    | some pending =>
      dsimp only
      split_ifs
      · exact .inl rfl
      · exact .inl rfl
    | none =>
      dsimp only
      split
      · exact .inl rfl
      · exact .inl rfl
      · exact .inl rfl
      · exact .inl rfl
      · exact .inl rfl
      · exact .inr ⟨request, _, _, rfl, rfl⟩

/-! ## Origins -/

/-- Whatever the tools know has its origin in the log. -/
structure Logged (w : SharedTools R) (log : List (Event R)) : Prop where
  checks : ∀ t ref stored, (w.tools t).checks.get? ref = some stored →
    stored.state = .fresh ∨ stored.state = .stale → ∃ e ∈ log, MakesCheck t stored.resource ref e
  ready : ∀ t ref stored, (w.tools t).ready.get? ref = some stored →
    ∃ (checkRef : Nat) (check revalidate : Event R), [check, revalidate].Sublist log ∧
      MakesCheck t stored.resource checkRef check ∧
      MakesProof t stored.resource stored.version checkRef ref revalidate
  claims : ∀ (i : Nat) (a : ClaimedAction R), w.actions[i]? = some a → Chained a.tool a.request i log

theorem Chained.mono {t i : Nat} {request : ActionRequest} (h : Chained t request i log)
    (e : Event R) : Chained t request i (log ++ [e]) := by
  obtain ⟨checkRef, ref, check, revalidate, act, hsub, horigins⟩ := h
  exact ⟨checkRef, ref, check, revalidate, act, hsub.trans (List.sublist_append_left log [e]), horigins⟩

theorem Logged.quiet (h : Logged w log) (e : Event R)
    (hchecks : ∀ t, (w'.tools t).checks = (w.tools t).checks)
    (hready : ∀ t, (w'.tools t).ready = (w.tools t).ready)
    (hactions : ∀ (i : Nat) (a : ClaimedAction R), w'.actions[i]? = some a →
      ∃ b, w.actions[i]? = some b ∧ b.tool = a.tool ∧ b.request = a.request) :
    Logged w' (log ++ [e]) where
  checks := by
    intro t ref stored hstored hstate
    rw [hchecks] at hstored
    obtain ⟨e', he', hmakes⟩ := h.checks t ref stored hstored hstate
    exact ⟨e', List.mem_append_left [e] he', hmakes⟩
  ready := by
    intro t ref stored hstored
    rw [hready] at hstored
    obtain ⟨checkRef, check, revalidate, hsub, hmakes⟩ := h.ready t ref stored hstored
    exact ⟨checkRef, check, revalidate, hsub.trans (List.sublist_append_left log [e]), hmakes⟩
  claims := by
    intro i a ha
    obtain ⟨b, hb, htool, hrequest⟩ := hactions i a ha
    rw [← htool, ← hrequest]
    exact (h.claims i b hb).mono e

theorem Logged.same (h : Logged w log) (e : Event R) : Logged w (log ++ [e]) :=
  h.quiet e (fun _ => rfl) (fun _ => rfl) (fun _ a ha => ⟨a, ha, rfl, rfl⟩)

theorem Logged.setPhase (h : Logged w log) (e : Event R) (i : Nat) (phase : ActionPhase R)
    (htools : w'.tools = w.tools) (hactions : w'.actions = (w.setPhase i phase).actions) :
    Logged w' (log ++ [e]) := by
  refine h.quiet e (fun t => by rw [htools]) (fun t => by rw [htools]) (fun j a ha => ?_)
  rw [hactions] at ha
  have ha' : (w.actions.modify i (fun a => { a with phase := phase }))[j]? = some a := ha
  rw [List.getElem?_modify] at ha'
  obtain ⟨b, hb, rfl⟩ := Option.map_eq_some_iff.mp ha'
  refine ⟨b, hb, ?_, ?_⟩
  · split_ifs <;> rfl
  · split_ifs <;> rfl

theorem Logged.check (h : Logged w log) (t : Nat) (input : GuardedToolResource)
    (answer : Option CheckAnswer) :
    Logged (w.check t input answer) (log ++ [(w, .check t input answer)]) := by
  rcases check_cases w t input answer with heq | ⟨a, state, rfl, hstate, heq⟩
  · rw [heq]
    exact h.same _
  rw [heq]
  have hquiet := h.same (w, ToolStep.check t input (some a))
  refine ⟨fun t' ref stored hstored hsevere => ?_, fun t' ref stored hstored => ?_, hquiet.claims⟩
  · have hstored' : (Function.update w.tools t _ t').checks.get? ref = some stored := hstored
    by_cases ht : t' = t
    · subst ht
      rw [Function.update_self] at hstored'
      by_cases href : ref = w.nextRef
      · -- the new check result
        subst href
        obtain rfl := Option.some.inj ((OrderedMap.get?_set_self _ _ _).symm.trans hstored')
        refine ⟨_, List.mem_append_right log (List.mem_singleton_self _), a, rfl, ?_, rfl, ?_⟩
        · rw [hstate]
          exact hsevere.imp (congrArg some) (congrArg some)
        · rw [heq]
      · have hold := (OrderedMap.get?_set_of_ne _ _ href).symm.trans hstored'
        exact hquiet.checks t' ref stored hold hsevere
    · rw [Function.update_of_ne ht] at hstored'
      exact hquiet.checks t' ref stored hstored' hsevere
  · have hstored' : (Function.update w.tools t _ t').ready.get? ref = some stored := hstored
    by_cases ht : t' = t
    · subst ht
      rw [Function.update_self] at hstored'
      exact hquiet.ready t' ref stored hstored'
    · rw [Function.update_of_ne ht] at hstored'
      exact hquiet.ready t' ref stored hstored'

theorem Logged.revalidate (h : Logged w log) (t : Nat) (input : PassedObject)
    (answer : Option RevalidateAnswer) :
    Logged (w.revalidate t input answer) (log ++ [(w, .revalidate t input answer)]) := by
  rcases revalidate_cases w t input answer with heq | ⟨checked, version, hchecked, hstate, rfl, heq⟩
  · rw [heq]
    exact h.same _
  rw [heq]
  have hquiet := h.same (w, ToolStep.revalidate t input (some ⟨checked.resource, some .fresh, some version⟩))
  refine ⟨fun t' ref stored hstored hsevere => ?_, fun t' ref stored hstored => ?_, hquiet.claims⟩
  · have hstored' : (Function.update w.tools t _ t').checks.get? ref = some stored := hstored
    by_cases ht : t' = t
    · subst ht
      rw [Function.update_self] at hstored'
      exact hquiet.checks t' ref stored hstored' hsevere
    · rw [Function.update_of_ne ht] at hstored'
      exact hquiet.checks t' ref stored hstored' hsevere
  · have hstored' : (Function.update w.tools t _ t').ready.get? ref = some stored := hstored
    by_cases ht : t' = t
    · subst ht
      rw [Function.update_self] at hstored'
      by_cases href : ref = w.nextRef
      · -- the new proof
        subst href
        obtain rfl := Option.some.inj ((OrderedMap.get?_set_self _ _ _).symm.trans hstored')
        obtain ⟨e, he, hmakes⟩ := h.checks t' input.ref checked hchecked hstate
        refine ⟨input.ref, e, (w, .revalidate t' input (some ⟨checked.resource, some .fresh,
          some version⟩)), ?_, hmakes, input, rfl, rfl, rfl, ?_⟩
        · exact List.Sublist.append (List.singleton_sublist.mpr he) (List.Sublist.refl _)
        · rw [heq]
      · have hold := (OrderedMap.get?_set_of_ne _ _ href).symm.trans hstored'
        exact hquiet.ready t' ref stored hold
    · rw [Function.update_of_ne ht] at hstored'
      exact hquiet.ready t' ref stored hstored'

theorem updateTool_inFlight (w : SharedTools R) (t : Nat)
    (inFlight : OrderedMap String InFlightAction) (t' : Nat) :
    (Function.update w.tools t ({ w.tools t with inFlight := inFlight } : GuardedTool) t').checks = (w.tools t').checks ∧
      (Function.update w.tools t ({ w.tools t with inFlight := inFlight } : GuardedTool) t').ready
        = (w.tools t').ready := by
  by_cases ht : t' = t
  · subst ht
    rw [Function.update_self]
    exact ⟨rfl, rfl⟩
  · rw [Function.update_of_ne ht]
    exact ⟨rfl, rfl⟩

theorem Logged.act (h : Logged w log) (t : Nat) (input : PassedObject) (action : JsValue)
    (idempotencyKey : String) : Logged (w.act t input action idempotencyKey).1
      (log ++ [(w, .act t input action idempotencyKey)]) := by
  rcases act_cases w t input action idempotencyKey with
    heq | ⟨request, inFlight, store, hrequest, heq⟩
  · rw [heq]
    exact h.same _
  rw [heq]
  have hquiet := h.same (w, ToolStep.act t input action idempotencyKey)
  have htools := updateTool_inFlight w t inFlight
  refine ⟨fun t' ref stored hstored => ?_, fun t' ref stored hstored => ?_, fun i a ha => ?_⟩
  · exact hquiet.checks t' ref stored ((htools t').1 ▸ hstored)
  · exact hquiet.ready t' ref stored ((htools t').2 ▸ hstored)
  · have ha' : (w.actions ++ [⟨t, request, .scheduled⟩])[i]? = some a := ha
    rw [List.getElem?_append] at ha'
    split_ifs at ha' with hlt
    · exact hquiet.claims i a ha'
    · -- the new claim
      rw [List.getElem?_singleton] at ha'
      split_ifs at ha' with hzero
      cases ha'
      obtain ⟨hready, hkey, haction⟩ := requestOf_ok hrequest
      obtain ⟨checkRef, check, revalidate, hsub, hcheck, hproof⟩ := h.ready t input.ref _ hready
      refine ⟨checkRef, input.ref, check, revalidate, (w, .act t input action idempotencyKey), ?_,
        hcheck, hproof, input, ?_, rfl, ?_, ?_⟩
      · exact List.Sublist.append hsub (List.Sublist.refl _)
      · rw [hkey, haction]
      · rw [hkey, haction]
        exact hrequest
      · show w.actions.length = i
        omega

theorem Logged.clean (h : Logged w log) (e : Event R) (i t : Nat) (request : ActionRequest)
    (result : ActionResult R) : Logged (w.clean i t request result) (log ++ [e]) := by
  have hfinished : Logged (w.setPhase i (.finished result)) (log ++ [e]) :=
    h.setPhase e i (.finished result) rfl rfl
  unfold SharedTools.clean
  cases (w.tools t).inFlight.get? request.key with
  | none => exact hfinished
  | some pending =>
    dsimp only
    split_ifs
    · have htools := updateTool_inFlight w t ((w.tools t).inFlight.erase request.key)
      exact ⟨fun t' ref stored hstored => hfinished.checks t' ref stored ((htools t').1 ▸ hstored),
        fun t' ref stored hstored => hfinished.ready t' ref stored ((htools t').2 ▸ hstored),
        hfinished.claims⟩
    · exact hfinished

theorem Logged.step (h : Logged w log) {i : ToolStep R} (hstep : Step w i w') : Logged w' (log ++ [(w, i)]) := by
  cases hstep with
  | check => exact h.check _ _ _
  | revalidate => exact h.revalidate _ _ _
  | act => exact h.act _ _ _ _
  | perform ha => exact h.setPhase _ _ .performing rfl rfl
  | invoke ha => exact h.setPhase _ _ .calling rfl rfl
  | answer | timeout => exact h.setPhase _ _ _ rfl rfl
  | @complete i t request response ha =>
    unfold SharedTools.complete
    cases w.store.complete request.key request.fingerprint response with
    | ok store => exact h.setPhase _ i (.settled response) rfl rfl
    | error err => exact h.setPhase _ i _ rfl rfl
  | clean ha => exact h.clean _ _ _ _ _

theorem Logged.reachable {maxEntries : Option Int}
    (h : (system R maxEntries).recorded.Reachable (w, log)) : Logged w log := by
  refine h.invariant (fun p => Logged p.1 p.2) ?_ ?_
  · rintro ⟨w, log⟩ ⟨⟨store, hstore, rfl⟩, rfl⟩
    refine ⟨fun t ref stored hstored => ?_, fun t ref stored hstored => ?_, fun i a ha => ?_⟩
    · cases hstored
    · cases hstored
    · rw [List.getElem?_nil] at ha
      cases ha
  · rintro ⟨w, log⟩ i ⟨w', log'⟩ hlogged ⟨hstep, rfl⟩
    exact hlogged.step hstep

theorem chained_of_invoke {maxEntries : Option Int} {before after : List (Event R)} {i : Nat}
    (h : (system R maxEntries).recorded.Reachable (w, log))
    (hlog : log = before ++ (w', .invoke i) :: after) :
    ∃ t request, w'.actions[i]? = some ⟨t, request, .performing⟩ ∧ Chained t request i before := by
  suffices hall : ∀ p, (system R maxEntries).recorded.Reachable p → ∀ (before : List (Event R)) w' i
      after, p.2 = before ++ (w', .invoke i) :: after → ∃ t request,
        w'.actions[i]? = some ⟨t, request, .performing⟩ ∧ Chained t request i before from
    hall (w, log) h before w' i after hlog
  intro p hp
  induction hp with
  | init hinit =>
    intro before w' i after hlog
    rw [hinit.2] at hlog
    cases before <;> cases hlog
  | @step p q label hp hstep ih =>
    intro before w' i after hlog
    obtain ⟨w0, log0⟩ := p
    obtain ⟨w₁, log1⟩ := q
    obtain ⟨hstep, rfl⟩ := hstep
    rcases System.split_log hlog with ⟨rfl, he⟩ | ⟨rest, hrest⟩
    · cases he
      cases hstep with
      | @invoke _ t request ha => exact ⟨t, request, ha, (Logged.reachable hp).claims i _ ha⟩
    · exact ih before w' i rest hrest

theorem invocations_eq_log {maxEntries : Option Int}
    (h : (system R maxEntries).recorded.Reachable (w, log)) :
    w.invocations = log.filterMap invocation := by
  refine h.invariant (fun p => p.1.invocations = p.2.filterMap invocation) ?_ ?_
  · rintro ⟨w, log⟩ ⟨⟨store, hstore, rfl⟩, rfl⟩
    rfl
  · rintro ⟨w, log⟩ i ⟨w', log'⟩ hlog ⟨hstep, rfl⟩
    dsimp only at hlog hstep ⊢
    rw [List.filterMap_append, ← hlog]
    cases hstep with
    | check =>
      rcases check_cases w _ _ _ with heq | ⟨a, state, -, -, heq⟩
      all_goals
        rw [heq]
        exact (List.append_nil _).symm
    | revalidate =>
      rcases revalidate_cases w _ _ _ with heq | ⟨stored, version, -, -, -, heq⟩
      all_goals
        rw [heq]
        exact (List.append_nil _).symm
    | act =>
      rcases act_cases w _ _ _ _ with heq | ⟨request, inFlight, store, -, heq⟩
      all_goals
        rw [heq]
        exact (List.append_nil _).symm
    | perform ha => exact (List.append_nil _).symm
    | @invoke i t request ha =>
      have hlast : invocation (w, ToolStep.invoke i) = some request :=
        congrArg (Option.map (fun a : ClaimedAction R => a.request)) ha
      rw [List.filterMap_cons_some hlast]
      rfl
    | answer | timeout => exact (List.append_nil _).symm
    | @complete i t request response ha =>
      unfold SharedTools.complete
      cases w.store.complete request.key request.fingerprint response with
      | ok | error => exact (List.append_nil _).symm
    | @clean i t request result ha =>
      unfold SharedTools.clean
      cases (w.tools t).inFlight.get? request.key with
      | none => exact (List.append_nil _).symm
      | some pending =>
        dsimp only
        split_ifs
        · exact (List.append_nil _).symm
        · exact (List.append_nil _).symm

theorem act_unproved {t : Nat} {input : PassedObject}
    (h : (w.tools t).ready.get? input.ref = none) (action : JsValue) (idempotencyKey : String) :
    ∃ refused : ActionResult R, refused.accepted = false ∧
      w.act t input action idempotencyKey = (w, .resolved refused) := by
  unfold act requestOf
  rw [h]
  exact ⟨_, rfl, rfl⟩

/-- The external callback is called at the end of a chain of calls on one tool. -/
theorem proof_chain (R : Type) (maxEntries : Option Int) : ProofChain R maxEntries where
  logged := fun w log h => invocations_eq_log h
  chained := fun w log h before w' i after hlog => chained_of_invoke h hlog
  unproved := by
    intro w log h t input hnone action idempotencyKey
    refine act_unproved ?_ action idempotencyKey
    cases hready : (w.tools t).ready.get? input.ref with
    | none => rfl
    | some stored =>
      obtain ⟨checkRef, check, revalidate, hsub, -, hproof⟩ :=
        (Logged.reachable h).ready t input.ref stored hready
      have hmem : revalidate ∈ log := hsub.subset (by simp)
      exact absurd hproof (hnone revalidate hmem _ _ _)

end SharedTools

end Premise.GuardedTools
