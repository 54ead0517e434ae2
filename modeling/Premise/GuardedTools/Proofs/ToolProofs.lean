import Premise.GuardedTools.Tool
import Premise.Js.KeyOrder

/-!
# Guarded tools call back at most once

Every claimed action has the entry of its key, and is in flight until its promise has a value. No two
actions have one key, so the actions in which the callback has been called bound its calls.
-/

namespace Premise.GuardedTools

open Collections Control Js Protocol
open SharedTools (refusal performed)

theorem canonicalProperties_eq (l : List (String × JsValue)) :
    canonicalProperties l = l.map (fun p => (p.1, canonicalText p.2)) := by
  induction l with
  | nil => rfl
  | cons p l ih =>
    obtain ⟨k, v⟩ := p
    unfold canonicalProperties
    rw [ih]
    rfl

mutual

theorem canonicalText_sorted : ∀ v : JsValue, canonicalText v.sorted = canonicalText v
  | .array items => by
    unfold JsValue.sorted canonicalText
    rw [canonicalItems_sorted items]
  | .object properties => by
    have hsorted : canonicalProperties (JsValue.sortByKey (JsValue.sortedProperties properties))
        = JsValue.sortByKey (canonicalProperties properties) := by
      rw [canonicalProperties_eq, ← sortByKey_map, ← canonicalProperties_eq, canonicalProperties_sorted properties]
    unfold JsValue.sorted canonicalText
    rw [hsorted, sortByKey_sortByKey]
  | .null | .undefined | .boolean _ | .number _ | .string _ | .exotic _ | .unserializable => rfl

theorem canonicalItems_sorted : ∀ items : List JsValue, canonicalItems (JsValue.sortedItems items) = canonicalItems items
  | [] => rfl
  | v :: items => by
    unfold JsValue.sortedItems canonicalItems
    rw [canonicalText_sorted v, canonicalItems_sorted items]

theorem canonicalProperties_sorted : ∀ properties : List (String × JsValue),
    canonicalProperties (JsValue.sortedProperties properties) = canonicalProperties properties
  | [] => rfl
  | (k, v) :: properties => by
    unfold JsValue.sortedProperties canonicalProperties
    rw [canonicalText_sorted v, canonicalProperties_sorted properties]

end

theorem ActionRequest.Same.fingerprint_eq {r s : ActionRequest} (h : r.Same s) : r.fingerprint = s.fingerprint := by
  have haction : canonicalText r.action = canonicalText s.action := by
    rw [← canonicalText_sorted r.action, ← canonicalText_sorted s.action]
    exact congrArg canonicalText h.action
  unfold ActionRequest.fingerprint
  rw [h.resource, h.expectedVersion, haction]

theorem ActionRequest.SameScope.key_eq {r s : ActionRequest} (h : r.SameScope s) : r.key = s.key := by
  unfold ActionRequest.key
  rw [h.1, h.2]

/-! ## The invariant -/

variable {R : Type} {w : SharedTools R}

def ActionPhase.begun : ActionPhase R → Bool
  | .scheduled => false
  | .performing => false
  | .calling => true
  | .performed _ => true
  | .settled _ => true
  | .finished _ => true

variable {i : Nat} {a b : ClaimedAction R} {phase : ActionPhase R} {request : ActionRequest}

namespace SharedTools

structure Sound (w : SharedTools R) : Prop where
  entry : ∀ (i : Nat) (a : ClaimedAction R), w.actions[i]? = some a →
    w.store.entries.get? a.request.key = some ⟨a.request.fingerprint, a.phase.value⟩
  owned : ∀ key e, w.store.entries.get? key = some e →
    ∃ (i : Nat) (a : ClaimedAction R), w.actions[i]? = some a ∧ a.request.key = key
  keys : (w.actions.map (fun a => a.request.key)).Nodup
  flying : ∀ t key f, (w.tools t).inFlight.get? key = some f → ∃ a, w.actions[f.action]? = some a ∧
    a.tool = t ∧ a.request.key = key ∧ a.request.fingerprint = f.fingerprint
  unsettled : ∀ (i : Nat) (a : ClaimedAction R), w.actions[i]? = some a → a.phase.value = none →
    (w.tools a.tool).inFlight.get? a.request.key = some ⟨a.request.fingerprint, i⟩
  calls : ∀ p : ActionRequest → Bool,
    w.invocations.countP p = w.actions.countP (fun a => a.phase.begun && p a.request)

theorem Sound.same (h : w.Sound) {j : Nat} (ha : w.actions[i]? = some a) (hb : w.actions[j]? = some b)
    (hkey : a.request.key = b.request.key) : i = j ∧ a = b := by
  obtain ⟨hi, hai⟩ := List.getElem?_eq_some_iff.mp ha
  have hmap : (w.actions.map (fun a => a.request.key))[i]?
      = (w.actions.map (fun a => a.request.key))[j]? := by
    rw [List.getElem?_map, List.getElem?_map, ha, hb]
    exact congrArg some hkey
  have hij : i = j := (List.getElem?_inj (by rw [List.length_map]; exact hi) h.keys).mp hmap
  subst hij
  exact ⟨rfl, Option.some.inj (ha.symm.trans hb)⟩

theorem Sound.once (h : w.Sound) (request : ActionRequest) : w.invoked request ≤ 1 := by
  unfold invoked
  rw [h.calls]
  calc w.actions.countP (fun a => a.phase.begun && decide (a.request.SameScope request))
      ≤ w.actions.countP (fun a => a.request.key == request.key) := by
        apply List.countP_mono_left
        intro a _ ha
        have hscope : a.request.SameScope request := of_decide_eq_true (Bool.and_eq_true_iff.mp ha).2
        exact beq_iff_eq.mpr hscope.key_eq
    _ = (w.actions.map (fun a => a.request.key)).count request.key := by
        rw [List.count, List.countP_map]
        rfl
    _ ≤ 1 := List.nodup_iff_count_le_one.mp h.keys request.key

/-! ### Phases -/

theorem getElem?_setPhase (w : SharedTools R) (i j : Nat) (phase : ActionPhase R) : (w.setPhase i phase).actions[j]?
      = if i = j then (w.actions[j]?).map (fun a => { a with phase := phase })
        else w.actions[j]? := by
  show (w.actions.modify i _)[j]? = _
  rw [List.getElem?_modify]
  split_ifs <;> cases w.actions[j]? <;> rfl

theorem keys_setPhase (w : SharedTools R) (i : Nat) (phase : ActionPhase R) :
    (w.setPhase i phase).actions.map (fun a => a.request.key)
      = w.actions.map (fun a => a.request.key) := by
  apply List.ext_getElem?
  intro j
  rw [List.getElem?_map, List.getElem?_map, getElem?_setPhase]
  split_ifs
  · rw [Option.map_map]
    rfl
  · rfl

theorem getElem?_setPhase_cases {j : Nat} (ha : w.actions[i]? = some a)
    (hb : (w.setPhase i phase).actions[j]? = some b) :
    (j = i ∧ b = { a with phase := phase }) ∨ (j ≠ i ∧ w.actions[j]? = some b) := by
  rw [getElem?_setPhase] at hb
  split_ifs at hb with hij
  · subst hij
    rw [ha] at hb
    exact .inl ⟨rfl, (Option.some.inj hb).symm⟩
  · exact .inr ⟨fun h => hij h.symm, hb⟩

theorem getElem?_setPhase_key (i : Nat) (phase : ActionPhase R) {j : Nat} {key : String}
    (hb : w.actions[j]? = some b) (hkey : b.request.key = key) :
    ∃ b', (w.setPhase i phase).actions[j]? = some b' ∧ b'.request.key = key := by
  rw [getElem?_setPhase, hb]
  split_ifs
  · exact ⟨_, rfl, hkey⟩
  · exact ⟨b, rfl, hkey⟩

theorem countP_setPhase (ha : w.actions[i]? = some a) (phase : ActionPhase R) (p : ActionRequest → Bool) :
    (w.setPhase i phase).actions.countP (fun a => a.phase.begun && p a.request)
        + (if a.phase.begun && p a.request then 1 else 0)
      = w.actions.countP (fun a => a.phase.begun && p a.request)
        + (if phase.begun && p a.request then 1 else 0) := by
  obtain ⟨hi, rfl⟩ := List.getElem?_eq_some_iff.mp ha
  have hbefore : ∀ q : ClaimedAction R → Bool, w.actions.countP q = (w.actions.take i).countP q
        + ((w.actions.drop (i + 1)).countP q + if q w.actions[i] then 1 else 0) := by
    intro q
    conv_lhs => rw [← List.take_append_drop i w.actions, List.drop_eq_getElem_cons hi]
    rw [List.countP_append, List.countP_cons]
  have hmodify : (w.setPhase i phase).actions
      = w.actions.take i ++ { w.actions[i] with phase := phase } :: w.actions.drop (i + 1) := by
    show w.actions.modify i _ = _
    rw [List.modify_eq_take_cons_drop hi]
  rw [hmodify, List.countP_append, List.countP_cons, hbefore]
  dsimp only
  omega

theorem Sound.setPhase (h : w.Sound) (ha : w.actions[i]? = some a) (hvalue : phase.value = a.phase.value)
    {invocations : List ActionRequest}
    (hcalls : ∀ p : ActionRequest → Bool, invocations.countP p + (if a.phase.begun && p a.request then 1 else 0) = w.invocations.countP p + (if phase.begun && p a.request then 1 else 0)) :
    
    Sound { w.setPhase i phase with invocations := invocations } where
  entry := by
    intro j b hb
    rcases getElem?_setPhase_cases ha hb with ⟨rfl, rfl⟩ | ⟨-, hb⟩
    · exact hvalue ▸ h.entry j a ha
    · exact h.entry j b hb
  owned := by
    intro key e he
    obtain ⟨j, b, hb, hkey⟩ := h.owned key e he
    exact ⟨j, getElem?_setPhase_key i phase hb hkey⟩
  keys := by
    show ((w.setPhase i phase).actions.map _).Nodup
    rw [keys_setPhase]
    exact h.keys
  flying := by
    intro t key f hf
    obtain ⟨b, hb, htool, hkey, hfingerprint⟩ := h.flying t key f hf
    show ∃ a, (w.setPhase i phase).actions[f.action]? = some a ∧ _
    rw [getElem?_setPhase, hb]
    split_ifs
    · exact ⟨_, rfl, htool, hkey, hfingerprint⟩
    · exact ⟨b, rfl, htool, hkey, hfingerprint⟩
  unsettled := by
    intro j b hb hnone
    rcases getElem?_setPhase_cases ha hb with ⟨rfl, rfl⟩ | ⟨-, hb⟩
    · exact h.unsettled j a ha (hvalue ▸ hnone)
    · exact h.unsettled j b hb hnone
  calls := by
    intro p
    have hcount := countP_setPhase ha phase p
    have hold := h.calls p
    have hnew := hcalls p
    show invocations.countP p = (w.setPhase i phase).actions.countP _
    omega

theorem Sound.setPhase_silent (h : w.Sound) (ha : w.actions[i]? = some a) (hvalue : phase.value = a.phase.value)
    (hbegun : phase.begun = a.phase.begun) : (w.setPhase i phase).Sound := by
  apply h.setPhase ha hvalue
  intro p
  rw [hbegun]

theorem Sound.invoke (h : w.Sound) {i t : Nat} {request : ActionRequest}
    (ha : w.actions[i]? = some ⟨t, request, .performing⟩) : (w.invoke i request).Sound := by
  have hphase : (ActionPhase.calling : ActionPhase R).value = (ActionPhase.performing).value := rfl
  refine h.setPhase ha hphase fun p => ?_
  rw [List.countP_append, List.countP_singleton]
  cases p request <;> rfl

/-! ### Checks and proofs -/

theorem check_cases (w : SharedTools R) (t : Nat) (input : GuardedToolResource)
    (answer : Option CheckAnswer) : w.check t input answer = w ∨
      ∃ a state, answer = some a ∧ a.state = some state ∧ w.check t input answer =
        { w.updateTool t (fun tool =>
          { tool with checks := tool.checks.set w.nextRef ⟨input, state, a.version⟩ }) with
          nextRef := w.nextRef + 1 } := by
  unfold check
  by_cases hinput : (!(nonEmpty input.tenantId && nonEmpty input.resource)) = true
  · exact .inl (if_pos hinput)
  rw [if_neg hinput]
  cases answer with
  | none => exact .inl rfl
  | some a =>
    dsimp only
    by_cases hresource : a.resource ≠ input
    · exact .inl (if_pos hresource)
    rw [if_neg hresource]
    cases hstate : a.state with
    | none => exact .inl rfl
    | some state =>
      dsimp only
      split_ifs
      · exact .inl rfl
      · exact .inl rfl
      · exact .inr ⟨a, state, rfl, hstate, rfl⟩

theorem revalidate_cases (w : SharedTools R) (t : Nat) (input : PassedObject)
    (answer : Option RevalidateAnswer) : w.revalidate t input answer = w ∨
      ∃ stored version, (w.tools t).checks.get? input.ref = some stored ∧ (stored.state = .fresh ∨ stored.state = .stale) ∧
        answer = some ⟨stored.resource, some .fresh, some version⟩ ∧
        w.revalidate t input answer = { w.updateTool t (fun tool =>
          { tool with ready := tool.ready.set w.nextRef ⟨stored.resource, version⟩ }) with
          nextRef := w.nextRef + 1 } := by
  unfold revalidate
  cases hstored : (w.tools t).checks.get? input.ref with
  | none => exact .inl rfl
  | some stored =>
    dsimp only
    by_cases hresource : stored.resource ≠ resourceFrom input.resource
    · exact .inl (if_pos hresource)
    rw [if_neg hresource, ← not_not.mp hresource]
    by_cases hstate : stored.state = .missing ∨ stored.state = .unknown ∨ stored.state = .invalid
    · exact .inl (if_pos hstate)
    rw [if_neg hstate]
    split_ifs with hversion
    · exact .inl rfl
    cases answer with
    | none => exact .inl rfl
    | some a =>
      obtain ⟨resource, outcome, observed⟩ := a
      dsimp only
      by_cases hanswer : resource ≠ stored.resource
      · exact .inl (if_pos hanswer)
      rw [if_neg hanswer]
      by_cases houtcome : outcome ≠ some .fresh
      · exact .inl (if_pos houtcome)
      rw [if_neg houtcome]
      cases observed with
      | none => exact .inl rfl
      | some version =>
        dsimp only
        split_ifs
        · exact .inl rfl
        · refine .inr ⟨stored, version, rfl, ?_, ?_, rfl⟩
          · cases hs : stored.state <;> simp [hs] at hstate ⊢
          · rw [not_not.mp hanswer, not_not.mp houtcome]

theorem Sound.congr (h : w.Sound) {w' : SharedTools R} (hstore : w'.store = w.store)
    (hactions : w'.actions = w.actions) (hinvocations : w'.invocations = w.invocations)
    (hflying : ∀ t, (w'.tools t).inFlight = (w.tools t).inFlight) : w'.Sound where
  entry := by
    rw [hactions, hstore]
    exact h.entry
  owned := by
    rw [hactions, hstore]
    exact h.owned
  keys := by
    rw [hactions]
    exact h.keys
  flying := by
    intro t
    rw [hactions, hflying]
    exact h.flying t
  unsettled := by
    intro i a
    rw [hactions, hflying]
    exact h.unsettled i a
  calls := by
    rw [hactions, hinvocations]
    exact h.calls

theorem inFlight_updateTool (w : SharedTools R) (t : Nat) {f : GuardedTool → GuardedTool}
    (hf : ∀ tool, (f tool).inFlight = tool.inFlight) (t' : Nat) :
    ((w.updateTool t f).tools t').inFlight = (w.tools t').inFlight := by
  show (Function.update w.tools t (f (w.tools t)) t').inFlight = _
  by_cases h : t' = t
  · subst h
    rw [Function.update_self, hf]
  · rw [Function.update_of_ne h]

theorem Sound.updateTool (h : w.Sound) (t : Nat) {f : GuardedTool → GuardedTool}
    (hf : ∀ tool, (f tool).inFlight = tool.inFlight) (nextRef : Nat) :
    Sound { w.updateTool t f with nextRef := nextRef } :=
  h.congr rfl rfl rfl (inFlight_updateTool w t hf)

theorem Sound.check (h : w.Sound) (t : Nat) (input : GuardedToolResource)
    (answer : Option CheckAnswer) : (w.check t input answer).Sound := by
  rcases check_cases w t input answer with heq | ⟨a, state, -, -, heq⟩
  · rw [heq]
    exact h
  · rw [heq]
    apply h.updateTool
    intro tool
    rfl

theorem Sound.revalidate (h : w.Sound) (t : Nat) (input : PassedObject)
    (answer : Option RevalidateAnswer) : (w.revalidate t input answer).Sound := by
  rcases revalidate_cases w t input answer with heq | ⟨stored, version, -, -, -, heq⟩
  · rw [heq]
    exact h
  · rw [heq]
    apply h.updateTool
    intro tool
    rfl

/-! ### Claiming -/

theorem claim_eq {s : BoundedGuardedToolIdempotencyStore R} : s.claim request.key request.fingerprint =
      match s.entries.get? request.key with
      | some existing =>
        if existing.fingerprint ≠ request.fingerprint then .ok (s, .conflict)
        else
          match existing.result with
          | none => .ok (s, .pending)
          | some result => .ok (s, .completed result)
      | none =>
        if (s.entries.size : Int) ≥ s.maxEntries then .ok (s, .full)
        else .ok ({ s with entries := s.entries.set request.key ⟨request.fingerprint, none⟩ }, .new)
    := by
  -- NUL is no white space.
  have hkey : nonEmpty request.key = true := by
    unfold nonEmpty ActionRequest.key
    rw [String.toList_ofList, List.any_append, List.any_cons]
    simp only [Bool.or_eq_true]
    exact .inr (Or.inl (by decide))
  have hfingerprint : nonEmpty request.fingerprint = true := by
    unfold nonEmpty ActionRequest.fingerprint
    rw [String.toList_ofList, List.any_append, List.any_cons]
    simp only [Bool.or_eq_true]
    exact .inr (Or.inl (by decide))
  unfold BoundedGuardedToolIdempotencyStore.claim
  rw [hkey, hfingerprint]
  rfl

def claimed (w : SharedTools R) (t : Nat) (request : ActionRequest) : SharedTools R :=
  let w' := w.updateTool t (fun tool =>
    { tool with inFlight := tool.inFlight.set request.key ⟨request.fingerprint, w.actions.length⟩ })
  { w' with
    store := { w.store with entries := w.store.entries.set request.key ⟨request.fingerprint, none⟩ }
    actions := w.actions ++ [⟨t, request, .scheduled⟩] }

theorem Sound.claimed (h : w.Sound) (t : Nat) (hfresh : w.store.entries.get? request.key = none) :
    (w.claimed t request).Sound := by
  have hnew : ∀ (i : Nat) (a : ClaimedAction R), w.actions[i]? = some a → a.request.key ≠ request.key := by
    intro i a ha hkey
    have hentry := h.entry i a ha
    rw [hkey, hfresh] at hentry
    cases hentry
  have hcases : ∀ (i : Nat) (a : ClaimedAction R), (w.claimed t request).actions[i]? = some a →
      w.actions[i]? = some a ∨ (i = w.actions.length ∧ a = ⟨t, request, .scheduled⟩) := by
    intro i a ha
    have ha' : (w.actions ++ [⟨t, request, .scheduled⟩])[i]? = some a := ha
    rw [List.getElem?_append] at ha'
    split_ifs at ha' with hlt
    · exact .inl ha'
    · rw [List.getElem?_singleton] at ha'
      split_ifs at ha' with hzero
      exact .inr ⟨by omega, (Option.some.inj ha').symm⟩
  have htool : ∀ t', ((w.claimed t request).tools t').inFlight = if t' = t then
      (w.tools t).inFlight.set request.key ⟨request.fingerprint, w.actions.length⟩
      else (w.tools t').inFlight := by
    intro t'
    show (Function.update w.tools t _ t').inFlight = _
    split_ifs with ht
    · subst ht
      rw [Function.update_self]
    · rw [Function.update_of_ne ht]
  have hlast : (w.claimed t request).actions[w.actions.length]? = some ⟨t, request, .scheduled⟩ :=
    List.getElem?_concat_length
  have hold : ∀ (i : Nat) (a : ClaimedAction R), w.actions[i]? = some a → (w.claimed t request).actions[i]? = some a := by
    intro i a ha
    exact (List.getElem?_append_left (List.getElem?_eq_some_iff.mp ha).1).trans ha
  refine ⟨?_, ?_, ?_, ?_, ?_, ?_⟩
  · intro i a ha
    show (w.store.entries.set request.key _).get? a.request.key = _
    rcases hcases i a ha with ha | ⟨rfl, rfl⟩
    · rw [OrderedMap.get?_set_of_ne _ _ (hnew i a ha)]
      exact h.entry i a ha
    · exact OrderedMap.get?_set_self _ _ _
  · intro key e he
    have he' : (w.store.entries.set request.key ⟨request.fingerprint, none⟩).get? key = some e := he
    by_cases hkey : key = request.key
    · exact ⟨w.actions.length, _, hlast, hkey.symm⟩
    · rw [OrderedMap.get?_set_of_ne _ _ hkey] at he'
      obtain ⟨i, a, ha, hown⟩ := h.owned key e he'
      exact ⟨i, a, hold i a ha, hown⟩
  · show ((w.actions ++ [(⟨t, request, .scheduled⟩ : ClaimedAction R)]).map _).Nodup
    rw [List.map_append, List.nodup_append]
    refine ⟨h.keys, List.nodup_singleton _, ?_⟩
    intro key hkey key' hkey' heq
    obtain ⟨a, ha, rfl⟩ := List.mem_map.mp hkey
    obtain ⟨i, hi⟩ := List.getElem?_of_mem ha
    rw [List.map_singleton, List.mem_singleton] at hkey'
    exact hnew i a hi (heq.trans hkey')
  · intro t' key f hf
    rw [htool] at hf
    split_ifs at hf with ht
    · subst ht
      by_cases hkey : key = request.key
      · subst hkey
        rw [OrderedMap.get?_set_self] at hf
        cases hf
        exact ⟨_, hlast, rfl, rfl, rfl⟩
      · rw [OrderedMap.get?_set_of_ne _ _ hkey] at hf
        obtain ⟨a, ha, hrest⟩ := h.flying t' key f hf
        exact ⟨a, hold _ a ha, hrest⟩
    · obtain ⟨a, ha, hrest⟩ := h.flying t' key f hf
      exact ⟨a, hold _ a ha, hrest⟩
  · intro i a ha hnone
    rw [htool]
    rcases hcases i a ha with ha | ⟨rfl, rfl⟩
    · split_ifs with ht
      · rw [OrderedMap.get?_set_of_ne _ _ (hnew i a ha), ← ht]
        exact h.unsettled i a ha hnone
      · exact h.unsettled i a ha hnone
    · rw [if_pos rfl]
      exact OrderedMap.get?_set_self _ _ _
  · intro p
    show w.invocations.countP p = (w.actions ++ [(⟨t, request, .scheduled⟩ : ClaimedAction R)]).countP _
    rw [List.countP_append, h.calls, List.countP_singleton]
    rfl

theorem Sound.actOn_cases (h : w.Sound) (t : Nat) (request : ActionRequest) :
    ((w.actOn t request) = (w.claimed t request, .promise w.actions.length) ∧ w.store.entries.get? request.key = none) ∨
    ((w.actOn t request) = (w, .resolved (refusal request .rejected "IDEMPOTENCY_RETENTION_FULL")) ∧
      w.store.entries.get? request.key = none) ∨
    ∃ i a, w.actions[i]? = some a ∧ a.request.key = request.key ∧ (w.actOn t request) = (w,
        if a.request.fingerprint ≠ request.fingerprint then
          .resolved (refusal request .rejected "IDEMPOTENCY_CONFLICT")
        else if ((w.tools t).inFlight.get? request.key).isSome then .promise i
        else
          match a.phase.value with
          | none => .resolved (refusal request .unknown "IDEMPOTENCY_IN_PROGRESS")
          | some result => .recorded result) := by
  unfold actOn
  cases hflying : (w.tools t).inFlight.get? request.key with
  | some f =>
    obtain ⟨a, ha, -, hkey, hfingerprint⟩ := h.flying t request.key f hflying
    refine .inr (Or.inr ⟨f.action, a, ha, hkey, ?_⟩)
    dsimp only
    rw [hfingerprint]
    by_cases hsame : f.fingerprint = request.fingerprint
    · rw [if_pos hsame, if_neg (not_not.mpr hsame)]
      rfl
    · rw [if_neg hsame, if_pos hsame]
  | none =>
    rw [claim_eq]
    cases hentry : w.store.entries.get? request.key with
    | none =>
      by_cases hfull : (w.store.entries.size : Int) ≥ w.store.maxEntries
      · rw [if_pos hfull]
        exact .inr (Or.inl ⟨rfl, rfl⟩)
      · rw [if_neg hfull]
        exact .inl ⟨rfl, rfl⟩
    | some e =>
      obtain ⟨i, a, ha, hkey⟩ := h.owned request.key e hentry
      have hown := h.entry i a ha
      rw [hkey, hentry] at hown
      cases hown
      refine .inr (Or.inr ⟨i, a, ha, hkey, ?_⟩)
      dsimp only
      by_cases hsame : a.request.fingerprint = request.fingerprint
      · rw [if_neg (not_not.mpr hsame), if_neg (not_not.mpr hsame)]
        cases a.phase.value <;> rfl
      · rw [if_pos hsame, if_pos hsame]

theorem Sound.act (h : w.Sound) (t : Nat) (input : PassedObject) (action : JsValue)
    (idempotencyKey : String) : (w.act t input action idempotencyKey).1.Sound := by
  unfold SharedTools.act
  cases w.requestOf t input action idempotencyKey with
  | error refused => exact h
  | ok request =>
    rcases h.actOn_cases t request with ⟨heq, hfresh⟩ | ⟨heq, -⟩ | ⟨i, a, -, -, heq⟩
    · show (w.actOn t request).1.Sound
      rw [heq]
      exact h.claimed t hfresh
    · show (w.actOn t request).1.Sound
      rw [heq]
      exact h
    · show (w.actOn t request).1.Sound
      rw [heq]
      exact h

/-! ### Settling -/

theorem Sound.complete (h : w.Sound) {i t : Nat} {request : ActionRequest}
    {response : ActionResult R} (ha : w.actions[i]? = some ⟨t, request, .performed response⟩) :
    (w.complete i request response).Sound := by
  have hentry := h.entry i _ ha
  have hcomplete : w.store.complete request.key request.fingerprint response
      = .ok { w.store with entries := w.store.entries.set request.key ⟨request.fingerprint, some response⟩ } := by
    unfold BoundedGuardedToolIdempotencyStore.complete
    rw [hentry]
    dsimp only
    rw [if_pos ⟨rfl, rfl⟩]
  unfold SharedTools.complete
  rw [hcomplete]
  have hother : ∀ (j : Nat) (b : ClaimedAction R), j ≠ i → w.actions[j]? = some b → b.request.key ≠ request.key :=
    fun j b hne hb hkey => hne (h.same hb ha hkey).1
  refine ⟨?_, ?_, ?_, ?_, ?_, ?_⟩
  · intro j b hb
    show (w.store.entries.set request.key _).get? b.request.key = _
    rcases getElem?_setPhase_cases ha hb with ⟨rfl, rfl⟩ | ⟨hne, hb⟩
    · exact OrderedMap.get?_set_self _ _ _
    · rw [OrderedMap.get?_set_of_ne _ _ (hother j b hne hb)]
      exact h.entry j b hb
  · intro key e he
    have hold : ∃ e, w.store.entries.get? key = some e := by
      by_cases hkey : key = request.key
      · exact ⟨_, hkey ▸ hentry⟩
      · have he' : (w.store.entries.set request.key _).get? key = some e := he
        rw [OrderedMap.get?_set_of_ne _ _ hkey] at he'
        exact ⟨e, he'⟩
    obtain ⟨e', he'⟩ := hold
    obtain ⟨j, b, hb, hkey⟩ := h.owned key e' he'
    exact ⟨j, getElem?_setPhase_key i _ hb hkey⟩
  · show ((w.setPhase i _).actions.map _).Nodup
    rw [keys_setPhase]
    exact h.keys
  · intro t' key f hf
    obtain ⟨b, hb, htool, hkey, hfingerprint⟩ := h.flying t' key f hf
    show ∃ a, (w.setPhase i _).actions[f.action]? = some a ∧ _
    rw [getElem?_setPhase, hb]
    split_ifs
    · exact ⟨_, rfl, htool, hkey, hfingerprint⟩
    · exact ⟨b, rfl, htool, hkey, hfingerprint⟩
  · intro j b hb hnone
    rcases getElem?_setPhase_cases ha hb with ⟨rfl, rfl⟩ | ⟨-, hb⟩
    · cases hnone
    · exact h.unsettled j b hb hnone
  · intro p
    have hcount := countP_setPhase ha (.settled response) p
    have hcalls := h.calls p
    show w.invocations.countP p = (w.setPhase i (.settled response)).actions.countP _
    have hsame : (ActionPhase.performed response).begun = (ActionPhase.settled response).begun := rfl
    rw [hsame] at hcount
    omega

theorem Sound.clean (h : w.Sound) {i t : Nat} {request : ActionRequest} {result : ActionResult R}
    (ha : w.actions[i]? = some ⟨t, request, .settled result⟩) :
    (w.clean i t request result).Sound := by
  have hfinished : (w.setPhase i (.finished result)).Sound := h.setPhase_silent ha rfl rfl
  unfold SharedTools.clean
  cases hflying : (w.tools t).inFlight.get? request.key with
  | none => exact hfinished
  | some pending =>
    dsimp only
    by_cases hown : pending.action = i
    · rw [if_pos hown]
      have htool : ∀ t', (((w.setPhase i (.finished result)).updateTool t (fun tool =>
          { tool with inFlight := tool.inFlight.erase request.key })).tools t').inFlight
          = if t' = t then (w.tools t).inFlight.erase request.key else (w.tools t').inFlight := by
        intro t'
        show (Function.update w.tools t _ t').inFlight = _
        split_ifs with ht
        · subst ht
          rw [Function.update_self]
          rfl
        · rw [Function.update_of_ne ht]
      refine ⟨hfinished.entry, hfinished.owned, hfinished.keys, ?_, ?_, hfinished.calls⟩
      · intro t' key f hf
        rw [htool] at hf
        apply hfinished.flying
        split_ifs at hf with ht
        · subst ht
          rw [OrderedMap.get?_erase] at hf
          split_ifs at hf
          exact hf
        · exact hf
      · intro j b hb hnone
        have hold := hfinished.unsettled j b hb hnone
        have hkey : b.request.key ≠ request.key := by
          intro hkey
          rcases getElem?_setPhase_cases ha hb with ⟨rfl, rfl⟩ | ⟨hne, hb⟩
          · cases hnone
          · exact hne (h.same hb ha hkey).1
        rw [htool]
        split_ifs with ht
        · rw [OrderedMap.get?_erase_of_ne _ hkey, ← ht]
          exact hold
        · exact hold
    · rw [if_neg hown]
      exact hfinished

theorem Sound.step (h : w.Sound) {i : ToolStep R} {w' : SharedTools R} (hstep : Step w i w') : w'.Sound := by
  cases hstep with
  | check => exact h.check _ _ _
  | revalidate => exact h.revalidate _ _ _
  | act => exact h.act _ _ _ _
  | perform ha => exact h.setPhase_silent ha rfl rfl
  | invoke ha => exact h.invoke ha
  | answer ha => exact h.setPhase_silent ha rfl rfl
  | timeout ha => exact h.setPhase_silent ha rfl rfl
  | complete ha => exact h.complete ha
  | clean ha => exact h.clean ha

theorem Sound.reachable {maxEntries : Option Int} (h : (system R maxEntries).Reachable w) : w.Sound := by
  apply h.invariant Sound
  · rintro w ⟨store, hstore, rfl⟩
    unfold BoundedGuardedToolIdempotencyStore.create at hstore
    dsimp only at hstore
    split_ifs at hstore
    cases hstore
    have hnone : ∀ (i : Nat) (a : ClaimedAction R), ([] : List (ClaimedAction R))[i]? ≠ some a := by
      intro i a h
      rw [List.getElem?_nil] at h
      cases h
    exact ⟨fun i a h => absurd h (hnone i a), fun key e h => absurd h (by simp), List.nodup_nil,
      fun t key f h => absurd h (by simp), fun i a h => absurd h (hnone i a), fun p => rfl⟩
  · exact fun w i w' h hstep => h.step hstep

theorem Sound.promised (h : w.Sound) {t : Nat} (ha : w.actions[i]? = some a) (hscope : request.SameScope a.request) :
    ((w.actOn t request).1 = w ∧ a.Answers i t request (w.actOn t request).2) ↔
      (request.fingerprint = a.request.fingerprint → request.Same a.request) := by
  have hentry := h.entry i a ha
  rw [← hscope.key_eq] at hentry
  rcases h.actOn_cases t request with ⟨-, hfresh⟩ | ⟨-, hfresh⟩ | ⟨j, b, hb, hkey, heq⟩
  · rw [hfresh] at hentry
    cases hentry
  · rw [hfresh] at hentry
    cases hentry
  obtain ⟨rfl, rfl⟩ := h.same ha hb (hscope.key_eq.symm.trans hkey.symm)
  rw [heq]
  constructor
  · rintro ⟨-, hanswers⟩ hfingerprint
    by_contra hne
    have hconflict := hanswers.different hne
    rw [if_neg (not_not.mpr hfingerprint.symm)] at hconflict
    split_ifs at hconflict
    cases hvalue : a.phase.value with
    | none =>
      rw [hvalue] at hconflict
      injection hconflict with hrefusal
      injection hrefusal with _ houtcome
      cases houtcome
    | some result =>
      rw [hvalue] at hconflict
      cases hconflict
  · intro hdistinguished
    refine ⟨rfl, ⟨?_, ?_, ?_, ?_⟩⟩
    · intro hne
      exact if_pos fun hfingerprint => hne (hdistinguished hfingerprint.symm)
    · intro hsame hnone htool
      have hflying := h.unsettled i a ha hnone
      rw [htool, ← hscope.key_eq] at hflying
      rw [if_neg (not_not.mpr hsame.fingerprint_eq.symm), hflying]
      rfl
    · intro hsame hnone htool
      have hflying : (w.tools t).inFlight.get? request.key = none := by
        cases hflying : (w.tools t).inFlight.get? request.key with
        | none => rfl
        | some f =>
          obtain ⟨b, hb, htoolb, hkeyb, -⟩ := h.flying t request.key f hflying
          obtain ⟨-, rfl⟩ := h.same ha hb (hscope.key_eq.symm.trans hkeyb.symm)
          exact absurd htoolb htool
      rw [if_neg (not_not.mpr hsame.fingerprint_eq.symm), hflying, hnone]
      rfl
    · intro hsame result hvalue
      rw [if_neg (not_not.mpr hsame.fingerprint_eq.symm), hvalue]
      split_ifs
      · exact .inr rfl
      · exact .inl rfl

theorem Sound.unchanged (h : w.Sound) (t : Nat) (input : PassedObject) (action : JsValue)
    (idempotencyKey : String)
    (hreply : ∀ i, (w.act t input action idempotencyKey).2 ≠ .promise i) :
    (w.act t input action idempotencyKey).1 = w := by
  unfold SharedTools.act at hreply ⊢
  cases hrequest : w.requestOf t input action idempotencyKey with
  | error refused => rfl
  | ok request =>
    rw [hrequest] at hreply
    dsimp only at hreply ⊢
    rcases h.actOn_cases t request with ⟨heq, -⟩ | ⟨heq, -⟩ | ⟨i, a, -, -, heq⟩
    · rw [heq] at hreply
      exact absurd rfl (hreply _)
    · rw [heq]
    · rw [heq]

end SharedTools

/-- Guarded tools call back at most once for a tenant and an idempotency key. -/
theorem SharedTools.at_most_once (R : Type) (maxEntries : Option Int) : AtMostOnce R maxEntries where
  once := fun w hw request => (Sound.reachable hw).once request
  unchanged := fun w hw => (Sound.reachable hw).unchanged
  promised := by
    intro w hw t input action idempotencyKey
    have hsound := Sound.reachable hw
    constructor
    · intro hpromised request hrequest a ha hscope
      obtain ⟨i, hi⟩ := List.getElem?_of_mem ha
      have hact := hpromised request hrequest i a hi hscope
      unfold SharedTools.act at hact
      rw [hrequest] at hact
      exact (hsound.promised hi hscope).mp hact
    · intro hdistinguished request hrequest i a ha hscope
      unfold SharedTools.act
      rw [hrequest]
      exact (hsound.promised ha hscope).mpr
        (hdistinguished request hrequest a (List.mem_of_getElem? ha) hscope)

/-- A version of a resource, as a callback answers it. -/
structure SharedTools.Observed where
  resource : GuardedToolResource
  version : VersionReference

namespace SharedTools

def prove (w : SharedTools Nat) (o : Observed) : SharedTools Nat :=
  (w.check 0 o.resource (some ⟨o.resource, some .fresh, some o.version⟩)).revalidate 0
    ⟨w.nextRef, o.resource, some o.version⟩ (some ⟨o.resource, some .fresh, some o.version⟩)

def withNul : Observed := ⟨⟨"t", "a\x00b"⟩, ⟨"c", "1"⟩⟩

/-- The text of this one is the text of `withNul`. -/
def withNul' : Observed := ⟨⟨"t", "a"⟩, ⟨"b\x00c", "1"⟩⟩

def bothProved : SharedTools Nat := (prove { store := ⟨∅, 1024⟩ } withNul).prove withNul'

/-- The action on `withNul` has been claimed. -/
def firstClaimed : SharedTools Nat :=
  (bothProved.act 0 ⟨1, withNul.resource, some withNul.version⟩ .null "k").1

def secondProof : PassedObject := ⟨3, withNul'.resource, some withNul'.version⟩

theorem firstClaimed_reachable : (system Nat none).Reachable firstClaimed := by
  have hprove : ∀ w o, (system Nat none).Reachable w → (system Nat none).Reachable (prove w o) :=
    fun w o h => .step (.step h .check) .revalidate
  have hinit : (system Nat none).Reachable { store := ⟨∅, 1024⟩ } := .init ⟨_, rfl, rfl⟩
  exact .step (hprove _ _ (hprove _ _ hinit)) .act

/-- The request on `withNul'` is another one, and is answered with the action on `withNul`. -/
theorem texts_run_together : ¬ ∀ w, (system Nat none).Reachable w →
    ∀ t input action idempotencyKey, w.Promised t input action idempotencyKey := by
  intro h
  have hpromised := h firstClaimed firstClaimed_reachable 0 secondProof .null "k"
  have hrequest : ((firstClaimed.requestOf 0 secondProof .null "k").toOption.map
      (fun r => (r.resource, r.idempotencyKey))) = some (withNul'.resource, "k") := by
    decide +kernel
  have hactions : firstClaimed.actions.map (fun a => (a.request.resource, a.request.idempotencyKey))
      = [(withNul.resource, "k")] := by decide +kernel
  have hreply : (firstClaimed.act 0 secondProof .null "k").2.isPromise = true := by decide +kernel
  cases hr : firstClaimed.requestOf 0 secondProof .null "k" with
  | error refused =>
    rw [hr] at hrequest
    cases hrequest
  | ok request =>
    rw [hr] at hrequest
    obtain ⟨hresource, hkey⟩ := Prod.mk.inj (Option.some.inj hrequest)
    obtain ⟨a, ha, hscope⟩ := List.map_eq_singleton_iff.mp hactions
    obtain ⟨hresource', hkey'⟩ := Prod.mk.inj hscope
    obtain ⟨-, hanswers⟩ := hpromised request hr 0 a (by rw [ha]; rfl)
      ⟨by rw [hresource, hresource']; rfl, hkey.trans hkey'.symm⟩
    have hdifferent : ¬ request.Same a.request := by
      intro hsame
      have heq : withNul'.resource = withNul.resource :=
        hresource.symm.trans (hsame.resource.trans hresource')
      exact absurd heq (by decide)
    have hrefused := hanswers.different hdifferent
    rw [hrefused] at hreply
    cases hreply

end SharedTools

end Premise.GuardedTools
