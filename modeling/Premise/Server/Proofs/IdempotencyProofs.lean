import Premise.Server.Idempotency

/-!
# Proofs: HTTP idempotency

Every call that holds a claim owns the active entry of its key, and no response is recorded under that
key. The scope of a request determines its tenant, operation and key, since neither of the last two
contains the separator.
-/

namespace Premise.Server

open Collections Control Js

variable {R : Type} {digestOf : Json → String}

theorem separator_inj {α : Type} {c : α} {a a' b b' : List α} (hb : c ∉ b) (hb' : c ∉ b')
    (h : a ++ c :: b = a' ++ c :: b') : a = a' ∧ b = b' := by
  induction a generalizing a' with
  | nil =>
    cases a' with
    | nil => exact ⟨rfl, (List.cons.inj h).2⟩
    | cons x a' =>
      obtain ⟨rfl, hrest⟩ := List.cons.inj h
      exact absurd (by rw [hrest]; simp) hb
  | cons x a ih =>
    cases a' with
    | nil =>
      obtain ⟨rfl, hrest⟩ := List.cons.inj h
      exact absurd (by rw [← hrest]; simp) hb'
    | cons y a' =>
      obtain ⟨rfl, hrest⟩ := List.cons.inj h
      obtain ⟨rfl, hbb⟩ := ih hrest
      exact ⟨rfl, hbb⟩

theorem MutationOperation.text_no_separator (o : MutationOperation) : '\x00' ∉ o.text.toList := by
  cases o <;> decide

theorem MutationOperation.text_injective : Function.Injective MutationOperation.text := by
  intro o o' h
  cases o <;> cases o' <;> first | rfl | exact absurd h (by decide)

theorem IdempotencyKey.text_no_separator (k : IdempotencyKey) : '\x00' ∉ k.text.toList := by
  intro hmem
  have hvalid := k.valid
  unfold validIdempotencyKey at hvalid
  rw [Bool.and_eq_true, List.all_eq_true] at hvalid
  exact absurd (hvalid.2 _ hmem) (by decide)

theorem HttpIdempotencyRequest.scope_eq_iff (r s : HttpIdempotencyRequest) : r.scope = s.scope ↔ r.SameKey s := by
  constructor
  · intro h
    unfold HttpIdempotencyRequest.scope at h
    obtain ⟨htenant, hrest⟩ : r.tenantId.toList = s.tenantId.toList ∧ r.operation.text.toList ++ '\x00' :: r.key.text.toList
          = s.operation.text.toList ++ '\x00' :: s.key.text.toList := by
      have hscope := String.ofList_injective h
      have hassoc : ∀ q : HttpIdempotencyRequest, q.tenantId.toList
          ++ '\x00' :: (q.operation.text.toList ++ '\x00' :: q.key.text.toList)
          = (q.tenantId.toList ++ '\x00' :: q.operation.text.toList) ++ '\x00' :: q.key.text.toList :=
        fun q => by simp
      rw [hassoc, hassoc] at hscope
      obtain ⟨hbefore, hkey⟩ := separator_inj r.key.text_no_separator s.key.text_no_separator hscope
      obtain ⟨htenant, hoperation⟩ := separator_inj r.operation.text_no_separator s.operation.text_no_separator hbefore
      exact ⟨htenant, by rw [hoperation, hkey]⟩
    obtain ⟨hoperation, hkey⟩ := separator_inj r.key.text_no_separator s.key.text_no_separator hrest
    refine ⟨String.toList_injective htenant, MutationOperation.text_injective (String.toList_injective hoperation), ?_⟩
    have htext := String.toList_injective hkey
    cases hr : r.key
    cases hs : s.key
    rw [hr, hs] at htext
    subst htext
    rfl
  · rintro ⟨htenant, hoperation, hkey⟩
    unfold HttpIdempotencyRequest.scope
    rw [htenant, hoperation, hkey]

variable {i : Nat} {phase : MutationPhase R} {c d : MutationCall R} {request : HttpIdempotencyRequest}

theorem MutationCall.modify_cases {l : List (MutationCall R)} {j : Nat} (hc : l[i]? = some c)
    (hd : (l.modify i (fun c => { c with phase := phase }))[j]? = some d) :
    (j = i ∧ d = { c with phase := phase }) ∨ (j ≠ i ∧ l[j]? = some d) := by
  rw [List.getElem?_modify] at hd
  split_ifs at hd with hij
  · subst hij
    rw [hc] at hd
    exact .inl ⟨rfl, (Option.some.inj hd).symm⟩
  · exact .inr ⟨fun h => hij h.symm, by simpa using hd⟩

namespace Mutations

variable {w w' : Mutations R}

theorem getElem?_setPhase (w : Mutations R) (i j : Nat) (phase : MutationPhase R) : (w.setPhase i phase).calls[j]?
      = if i = j then (w.calls[j]?).map (fun c => { c with phase := phase }) else w.calls[j]? := by
  show (w.calls.modify i _)[j]? = _
  rw [List.getElem?_modify]
  split_ifs <;> cases w.calls[j]? <;> rfl

theorem setPhase_cases {j : Nat} (hc : w.calls[i]? = some c) (hd : (w.setPhase i phase).calls[j]? = some d) :
    (j = i ∧ d = { c with phase := phase }) ∨ (j ≠ i ∧ w.calls[j]? = some d) :=
  MutationCall.modify_cases hc hd

/-- The calls that hold claims, and the entries of the store. -/
structure Sound (w : Mutations R) : Prop where
  owns : ∀ (i : Nat) (c : MutationCall R) (token : String), w.calls[i]? = some c →
    c.phase.token? = some token → w.store.Owns c.request token
  unique : ∀ (i j : Nat) (c d : MutationCall R), w.calls[i]? = some c → w.calls[j]? = some d →
    c.phase.token?.isSome → d.phase.token?.isSome → c.request.scope = d.request.scope → i = j
  /-- A key with a recorded response has no active claim. -/
  recorded : ∀ scope, (w.store.completed.get? scope).isSome → w.store.active.get? scope = none

theorem Sound.initial : Sound ({} : Mutations R) where
  owns := by simp
  unique := by simp
  recorded := fun _ _ => OrderedMap.get?_empty _

theorem Sound.keep {phase' : MutationPhase R} (h : w.Sound) (hc : w.calls[i]? = some ⟨request, phase⟩)
    {token : String} (hphase : phase.token? = some token) (hphase' : phase'.token? = some token) :
    (w.setPhase i phase').Sound where
  owns := by
    intro j d t hd ht
    rcases setPhase_cases hc hd with ⟨rfl, rfl⟩ | ⟨-, hold⟩
    · have hdt : some token = some t := hphase'.symm.trans ht
      cases hdt
      exact h.owns j ⟨request, phase⟩ token hc hphase
    · exact h.owns j d t hold ht
  unique := by
    intro j k d e hd he htd hte hscope
    rcases setPhase_cases hc hd with ⟨rfl, rfl⟩ | ⟨-, hold⟩
    · rcases setPhase_cases hc he with ⟨rfl, -⟩ | ⟨-, hold'⟩
      · rfl
      · exact h.unique j k _ e hc hold' (by rw [hphase]; rfl) hte hscope
    · rcases setPhase_cases hc he with ⟨rfl, rfl⟩ | ⟨-, hold'⟩
      · exact h.unique j k d _ hold hc htd (by rw [hphase]; rfl) hscope
      · exact h.unique j k d e hold hold' htd hte hscope
  recorded := h.recorded

theorem Sound.giveUp {i : Nat} {request : HttpIdempotencyRequest} {phase phase' : MutationPhase R}
    {store : InMemoryHttpIdempotencyStore R} (h : w.Sound)
    (hc : w.calls[i]? = some ⟨request, phase⟩) (hphase : phase.token?.isSome)
    (hphase' : phase'.token? = none) (hactive : store.active = w.store.active.erase request.scope)
    (hcompleted : ∀ scope, scope ≠ request.scope → store.completed.get? scope = w.store.completed.get? scope) :
    Sound { w.setPhase i phase' with store := store } where
  owns := by
    intro j d t hd ht
    rcases setPhase_cases hc hd with ⟨rfl, rfl⟩ | ⟨hne, hold⟩
    · rw [hphase'] at ht
      cases ht
    · have hscope : d.request.scope ≠ request.scope :=
        fun heq => hne (h.unique j i d _ hold hc (by rw [ht]; rfl) hphase heq)
      show store.active.get? _ = _
      rw [hactive, OrderedMap.get?_erase_of_ne _ hscope]
      exact h.owns j d t hold ht
  unique := by
    intro j k d e hd he htd hte hscope
    rcases setPhase_cases hc hd with ⟨rfl, rfl⟩ | ⟨-, hold⟩
    · rw [hphase'] at htd
      cases htd
    · rcases setPhase_cases hc he with ⟨rfl, rfl⟩ | ⟨-, hold'⟩
      · rw [hphase'] at hte
        cases hte
      · exact h.unique j k d e hold hold' htd hte hscope
  recorded := by
    intro scope hsome
    show store.active.get? scope = none
    rw [hactive]
    by_cases heq : scope = request.scope
    · rw [heq]
      exact OrderedMap.get?_erase_self _ _
    · rw [OrderedMap.get?_erase_of_ne _ heq]
      exact h.recorded scope (by rw [← hcompleted scope heq]; exact hsome)

/-! ## Calls and jobs -/

theorem getElem?_append_cases {l : List (MutationCall R)} {j : Nat} (h : (l ++ [c])[j]? = some d) :
    l[j]? = some d ∨ (j = l.length ∧ d = c) := by
  rcases Nat.lt_trichotomy j l.length with hlt | rfl | hgt
  · rw [List.getElem?_append_left hlt] at h
    exact .inl h
  · rw [List.getElem?_concat_length] at h
    exact .inr ⟨rfl, (Option.some.inj h).symm⟩
  · rw [List.getElem?_eq_none (by simp; omega)] at h
    cases h

theorem Sound.refuse (h : w.Sound) (request : HttpIdempotencyRequest) (hphase : phase.token? = none) :
    Sound { w with calls := w.calls ++ [⟨request, phase⟩] } where
  owns := by
    intro i c token hc ht
    rcases getElem?_append_cases hc with hold | ⟨-, rfl⟩
    · exact h.owns i c token hold ht
    · rw [hphase] at ht
      cases ht
  unique := by
    intro i j c d hc hd htc htd hscope
    rcases getElem?_append_cases hc with hold | ⟨-, rfl⟩
    · rcases getElem?_append_cases hd with hold' | ⟨-, rfl⟩
      · exact h.unique i j c d hold hold' htc htd hscope
      · rw [hphase] at htd
        cases htd
    · rw [hphase] at htc
      cases htc
  recorded := h.recorded

theorem executeMutation_cases (w : Mutations R) (request : HttpIdempotencyRequest) (uuid : String) :
    (∃ hash response, w.store.completed.get? request.scope = some ⟨hash, response⟩ ∧
      ((hash = request.requestHash ∧ w.executeMutation request uuid
          = { w with calls := w.calls ++ [⟨request, .returned response⟩] }) ∨
        (hash ≠ request.requestHash ∧ ∃ err, w.executeMutation request uuid
          = { w with calls := w.calls ++ [⟨request, .threw err⟩] }))) ∨
    (w.store.completed.get? request.scope = none ∧ ((∃ active, w.store.active.get? request.scope = some active ∧
        ∃ err, w.executeMutation request uuid = { w with calls := w.calls ++ [⟨request, .threw err⟩] }) ∨
      (w.store.active.get? request.scope = none ∧ w.executeMutation request uuid =
          { store := { w.store with
              active := w.store.active.set request.scope ⟨request.requestHash, uuid⟩ }
            calls := w.calls ++ [⟨request, .claimed uuid⟩] }))) := by
  unfold executeMutation InMemoryHttpIdempotencyStore.claimHttpIdempotency
  cases hcompleted : w.store.completed.get? request.scope with
  | some completed =>
    refine .inl ⟨completed.requestHash, completed.response, rfl, ?_⟩
    by_cases hhash : completed.requestHash = request.requestHash
    · exact .inl ⟨hhash, by simp [hhash, claimPhase]⟩
    · exact .inr ⟨hhash, _, by
        simp only [if_neg hhash, claimPhase]
        rfl⟩
  | none =>
    refine .inr ⟨rfl, ?_⟩
    cases hactive : w.store.active.get? request.scope with
    | some active =>
      refine .inl ⟨active, rfl, ?_⟩
      by_cases hhash : active.requestHash = request.requestHash
      · exact ⟨_, by
        simp only [if_neg (not_not_intro hhash), claimPhase]
        rfl⟩
      · exact ⟨_, by
        simp only [if_pos hhash, claimPhase]
        rfl⟩
    | none => exact .inr ⟨rfl, rfl⟩

theorem Sound.claim (h : w.Sound) (uuid : String) (hcompleted : w.store.completed.get? request.scope = none)
    (hactive : w.store.active.get? request.scope = none) :
    Sound { store := { w.store with
              active := w.store.active.set request.scope ⟨request.requestHash, uuid⟩ }
            calls := w.calls ++ [⟨request, .claimed uuid⟩] } := by
  have hfree : ∀ (i : Nat) (c : MutationCall R), w.calls[i]? = some c → c.phase.token?.isSome →
      c.request.scope ≠ request.scope := by
    intro i c hc ht heq
    obtain ⟨token, ht⟩ := Option.isSome_iff_exists.mp ht
    have howns : w.store.active.get? c.request.scope = some _ := h.owns i c token hc ht
    rw [heq, hactive] at howns
    cases howns
  constructor
  case owns =>
    intro i c token hc ht
    rcases getElem?_append_cases hc with hold | ⟨-, rfl⟩
    · have hne := hfree i c hold (by rw [ht]; rfl)
      exact (OrderedMap.get?_set_of_ne _ _ hne).trans (h.owns i c token hold ht)
    · cases ht
      exact OrderedMap.get?_set_self _ _ _
  case unique =>
    intro i j c d hc hd htc htd hscope
    rcases getElem?_append_cases hc with hold | ⟨hi, rfl⟩
    · rcases getElem?_append_cases hd with hold' | ⟨-, rfl⟩
      · exact h.unique i j c d hold hold' htc htd hscope
      · exact absurd hscope (hfree i c hold htc)
    · rcases getElem?_append_cases hd with hold' | ⟨hj, rfl⟩
      · exact absurd hscope.symm (hfree j d hold' htd)
      · exact hi.trans hj.symm
  case recorded =>
    intro scope hsome
    have hne : scope ≠ request.scope := by
      rintro rfl
      rw [hcompleted] at hsome
      cases hsome
    exact (OrderedMap.get?_set_of_ne _ _ hne).trans (h.recorded scope hsome)

theorem Sound.executeMutation (h : w.Sound) (request : HttpIdempotencyRequest) (uuid : String) :
    (w.executeMutation request uuid).Sound := by
  rcases executeMutation_cases w request uuid with
    ⟨_, _, -, ⟨-, heq⟩ | ⟨-, _, heq⟩⟩ | ⟨hcompleted, ⟨_, -, _, heq⟩ | ⟨hactive, heq⟩⟩
  · rw [heq]
    exact h.refuse request rfl
  · rw [heq]
    exact h.refuse request rfl
  · rw [heq]
    exact h.refuse request rfl
  · rw [heq]
    exact h.claim uuid hcompleted hactive

theorem Sound.complete_cases (h : w.Sound) {token : String} {r : R}
    (hc : w.calls[i]? = some ⟨request, .durable token r⟩) (copied : Except JsError R) :
    (∃ err, w.complete i request token r copied = w.setPhase i (.failing token err)) ∨
    ∃ response, w.complete i request token r copied = { w.setPhase i (.returned r) with
      store :=
        { completed := w.store.completed.set request.scope ⟨request.requestHash, response⟩
          active := w.store.active.erase request.scope } } := by
  have howns : w.store.Owns request token := h.owns i _ token hc rfl
  cases copied with
  | error err => exact .inl ⟨_, rfl⟩
  | ok response =>
    refine .inr ⟨response, ?_⟩
    have hcompletes : w.store.completeHttpIdempotency request token response = .ok { w.store with
            completed := w.store.completed.set request.scope ⟨request.requestHash, response⟩
            active := w.store.active.erase request.scope } := if_pos howns
    unfold Mutations.complete
    dsimp only
    rw [hcompletes]

theorem Sound.release_eq (h : w.Sound) {token : String} {err : MutationError}
    (hc : w.calls[i]? = some ⟨request, .failing token err⟩) :
    w.release i request token err = { w.setPhase i (.threw err) with
      store := { w.store with active := w.store.active.erase request.scope } } := by
  have howns : w.store.Owns request token := h.owns i _ token hc rfl
  unfold Mutations.release InMemoryHttpIdempotencyStore.releaseHttpIdempotency
  rw [if_pos howns]

theorem Sound.step (h : w.Sound) {step : MutationStep R} (hstep : Step digestOf w step w') : w'.Sound := by
  cases hstep with
  | call => exact h.executeMutation _ _
  | act hc => exact h.keep hc rfl rfl
  | @settle i request token result hc => cases result <;> exact h.keep hc rfl rfl
  | @awaitDurability i request token r result hc => cases result <;> exact h.keep hc rfl rfl
  | @complete i request token r copied hc =>
    rcases h.complete_cases hc copied with ⟨err, heq⟩ | ⟨response, heq⟩
    · rw [heq]
      exact h.keep hc rfl rfl
    · rw [heq]
      exact h.giveUp hc rfl rfl rfl fun scope hne => OrderedMap.get?_set_of_ne _ _ hne
  | release hc =>
    rw [h.release_eq hc]
    exact h.giveUp hc rfl rfl rfl fun _ _ => rfl

theorem Sound.reachable (h : (system R digestOf).Reachable w) : w.Sound := by
  refine h.invariant Sound ?_ fun _ _ _ hw hstep => hw.step hstep
  rintro _ rfl
  exact Sound.initial

/-! ## Whole runs -/

theorem Sound.inFlight (h : w.Sound) (hi : w.InFlight i request) :
    ∃ (c : MutationCall R) (token : String), w.calls[i]? = some c ∧ c.phase.token? = some token ∧
      w.store.active.get? request.scope = some ⟨c.request.requestHash, token⟩ := by
  obtain ⟨c, token, hc, ht, hsame⟩ := hi
  have howns : w.store.active.get? c.request.scope = some _ := h.owns i c token hc ht
  rw [(HttpIdempotencyRequest.scope_eq_iff _ _).mpr hsame] at howns
  exact ⟨c, token, hc, ht, howns⟩

theorem Sound.step_recorded (h : w.Sound) {step : MutationStep R} (hstep : Step digestOf w step w') {hash : String}
    {response : R} (hrecorded : w.Recorded request hash response) :
    w'.Recorded request hash response := by
  cases hstep with
  | @call input uuid =>
    rcases executeMutation_cases w (input.request digestOf) uuid with
      ⟨_, _, -, ⟨-, heq⟩ | ⟨-, _, heq⟩⟩ | ⟨-, ⟨_, -, _, heq⟩ | ⟨-, heq⟩⟩
    all_goals
      rw [heq]
      exact hrecorded
  | act | settle | awaitDurability => exact hrecorded
  | @complete i request' token r copied hc =>
    rcases h.complete_cases hc copied with ⟨err, heq⟩ | ⟨response', heq⟩
    · rw [heq]
      exact hrecorded
    · rw [heq]
      refine (OrderedMap.get?_set_of_ne _ _ ?_).trans hrecorded
      intro hscope
      have howns : w.store.active.get? request'.scope = some _ := h.owns i _ token hc rfl
      have hnone := h.recorded request.scope (by rw [show w.store.completed.get? _ = _ from hrecorded]; rfl)
      rw [hscope, howns] at hnone
      cases hnone
  | release hc =>
    rw [h.release_eq hc]
    exact hrecorded

theorem Sound.step_answered (h : w.Sound) {step : MutationStep R} (hstep : Step digestOf w step w')
    (hc : w.calls[i]? = some c) (ht : c.phase.token? = none) :
    w'.calls[i]? = some c := by
  have happend : ∀ d : MutationCall R, (w.calls ++ [d])[i]? = some c := by
    intro d
    obtain ⟨hlt, -⟩ := List.getElem?_eq_some_iff.mp hc
    rw [List.getElem?_append_left hlt]
    exact hc
  have hset : ∀ {j : Nat} {request : HttpIdempotencyRequest} {phase phase' : MutationPhase R},
      w.calls[j]? = some ⟨request, phase⟩ → phase.token?.isSome →
        (w.setPhase j phase').calls[i]? = some c := by
    intro j request phase phase' hj hsome
    have hne : j ≠ i := by
      rintro rfl
      rw [hc] at hj
      cases hj
      rw [ht] at hsome
      cases hsome
    rw [getElem?_setPhase, if_neg hne]
    exact hc
  cases hstep with
  | @call input uuid => exact happend _
  | act hj => exact hset hj rfl
  | settle hj => exact hset hj rfl
  | awaitDurability hj => exact hset hj rfl
  | @complete j request token r copied hj =>
    rcases h.complete_cases hj copied with ⟨err, heq⟩ | ⟨response, heq⟩
    · rw [heq]
      exact hset hj rfl
    · rw [heq]
      exact hset hj rfl
  | release hj =>
    rw [h.release_eq hj]
    exact hset hj rfl

theorem Sound.run {P : Mutations R → Prop} (h : w.Sound)
    (hstep : ∀ v step v', v.Sound → P v → Step digestOf v step v' → P v') (hw : P w)
    (hrun : ((system R digestOf).startingAt w).Reachable w') : w'.Sound ∧ P w' := by
  refine hrun.invariant (fun v => v.Sound ∧ P v) ?_ ?_
  · rintro _ rfl
    exact ⟨h, hw⟩
  · rintro v step v' ⟨hv, hp⟩ hvv'
    exact ⟨hv.step hvv', hstep v step v' hv hp hvv'⟩

end Mutations

end Premise.Server
