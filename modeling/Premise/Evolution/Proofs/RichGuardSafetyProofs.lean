import Premise.Evolution.Proofs.RichGuardProofs

/-!
# Proofs: what the rich guard promises

The receipts are those of the last validations, and the actions are those of the commits that were applied. So
every commit keeps the promises just when the conditions that come before the lookup of its key allow it to.
-/

namespace Premise.Evolution

open Collections Control Js

/-- The events of a run, with the state that it leaves. -/
inductive Ran (initial : GuardInitial) : List GuardEvent → GuardState GuardReceipt → Prop
  | init : Ran initial [] (initial.state GuardReceipt)
  | step {events : List GuardEvent} {s s' : GuardState GuardReceipt} {operation : GuardOperation} {output : GuardOutput} :
    Ran initial events s → initial.step s operation = .ok (s', output) →
      Ran initial (events ++ [⟨s, operation, output⟩]) s'

variable {initial : GuardInitial} {s s' : GuardState GuardReceipt}

theorem Ran.events {before : List GuardEvent} (h : Ran initial before s) (steps : List GuardStep) :
    ∃ s', Ran initial (before ++ initial.events s steps) s' := by
  induction steps generalizing before s with
  | nil => exact ⟨s, by rw [GuardInitial.events, List.append_nil]; exact h⟩
  | cons next rest ih =>
    unfold GuardInitial.events
    cases hstep : initial.step s next.operation with
    | error e => exact ⟨s, by rw [List.append_nil]; exact h⟩
    | ok p =>
      obtain ⟨s', output⟩ := p
      obtain ⟨t, ht⟩ := ih (h.step hstep)
      exact ⟨t, by rw [List.append_assoc] at ht; exact ht⟩

/-! ## What a state keeps of the steps before it -/

/-- A receipt, with the validation that has issued it. -/
structure IssuedBy (s : GuardState GuardReceipt) (id : String) (receipt : GuardReceipt) (v : GuardEvent) : Prop where
  id : receipt.receiptId = id
  memory : ∃ memory, v.before.memories.get? receipt.memoryId = some memory ∧ receipt.revision = memory.revision
    ∧ receipt.sourceVersions = memory.sourceVersions
  resource : (v.before.resources.get? receipt.resourceId).map GuardResource.incarnation
    = s.firstResource.map (fun _ => receipt.resourceIncarnation)
  uris : (s.memories.get? receipt.memoryId).map (fun memory => memory.sourceVersions.map SourceVersion.sourceUri)
    = some (receipt.sourceVersions.map SourceVersion.sourceUri)

structure Kept (events : List GuardEvent) (s : GuardState GuardReceipt) : Prop where
  sound : s.Sound
  keyed : ∀ id memory, s.memories.get? id = some memory → memory.memoryId = id
  receipts : ∀ id receipt, s.receipts.get? id = some receipt → ∃ v, issued events id = some v ∧ IssuedBy s id receipt v
  actions : ∀ key digest, s.actions.get? key = some digest ↔
    ∃ a ∈ events, a.output = .applied ∧ a.key = some key ∧ a.digest = some digest
  commits : ∀ a ∈ events, a.output = .applied → a.key ≠ none

theorem issued_snoc (events : List GuardEvent) (e : GuardEvent) (id : String) :
    issued (events ++ [e]) id = if e.output = .use id then some e else issued events id := by
  unfold issued
  rw [List.reverse_append, List.reverse_singleton, List.singleton_append, List.find?_cons]
  by_cases h : e.output = .use id
  · simp [h]
  · simp [h]

variable {e : GuardEvent} {input : CommitInput} {receipt : GuardReceipt} {output : GuardOutput}

namespace Kept

variable {events : List GuardEvent}

theorem init (initial : GuardInitial) : Kept [] (initial.state GuardReceipt) where
  sound := GuardState.Sound.init initial
  keyed := by
    intro id memory h
    obtain ⟨m, -, hm⟩ := List.mem_map.mp (OrderedMap.mem_of_mem_ofList ((OrderedMap.get?_eq_some_iff _).mp h))
    cases hm
    rfl
  receipts := by
    intro id receipt h
    cases h
  actions := by
    intro key digest
    refine iff_of_false (fun h => ?_) (fun ⟨a, ha, _⟩ => List.not_mem_nil ha)
    cases h
  commits := List.forall_mem_nil _

theorem quiet (h : Kept events s) (hsound : s'.Sound)
    (hkeyed : ∀ id memory, s'.memories.get? id = some memory → memory.memoryId = id)
    (huris : ∀ id, (s'.memories.get? id).map (fun memory => memory.sourceVersions.map SourceVersion.sourceUri) = (s.memories.get? id).map (fun memory => memory.sourceVersions.map SourceVersion.sourceUri))
    (hfirst : s'.firstResource.isSome = s.firstResource.isSome) (hreceipts : s'.receipts = s.receipts)
    (hactions : s'.actions = s.actions) (huse : ∀ id, e.output ≠ .use id) (happlied : e.output ≠ .applied) :
    Kept (events ++ [e]) s' where
  sound := hsound
  keyed := hkeyed
  receipts := by
    intro id receipt hget
    rw [hreceipts] at hget
    obtain ⟨v, hv, hissued⟩ := h.receipts id receipt hget
    refine ⟨v, by rw [issued_snoc, if_neg (huse id)]; exact hv, hissued.id, hissued.memory, ?_, ?_⟩
    · rw [hissued.resource]
      cases hs : s.firstResource with
      | none =>
        have hnone : s'.firstResource = none := by
          rw [hs] at hfirst
          exact Option.not_isSome_iff_eq_none.mp (by rw [hfirst]; simp)
        rw [hnone, Option.map_none]
      | some resource =>
        rw [hs] at hfirst
        obtain ⟨resource', hs'⟩ := Option.isSome_iff_exists.mp hfirst
        rw [hs']
        rfl
    · rw [huris, hissued.uris]
  actions := by
    intro key digest
    rw [hactions, h.actions]
    constructor
    · rintro ⟨a, ha, hrest⟩
      exact ⟨a, List.mem_append_left _ ha, hrest⟩
    · rintro ⟨a, ha, houtput, hrest⟩
      rcases List.mem_append.mp ha with ha | ha
      · exact ⟨a, ha, houtput, hrest⟩
      · rw [List.mem_singleton.mp ha] at houtput
        exact absurd houtput happlied
  commits := List.forall_mem_append.mpr ⟨h.commits, List.forall_mem_singleton.mpr (fun h => absurd h happlied)⟩

theorem still (h : Kept events s) (huse : ∀ id, e.output ≠ .use id) (happlied : e.output ≠ .applied) :
    Kept (events ++ [e]) s :=
  h.quiet h.sound h.keyed (fun _ => rfl) rfl rfl rfl huse happlied

theorem mutateSource (h : Kept events s) (sourceUri token : String) :
    Kept (events ++ [⟨s, .mutateSource sourceUri token, .done⟩]) (s.mutateSource sourceUri token) := by
  refine h.quiet ⟨h.sound.keyed, h.sound.named, h.sound.first⟩ ?_ ?_ rfl rfl rfl (fun _ => by simp) (by simp)
  · intro id memory hget
    rw [GuardState.mutateSource, OrderedMap.get?_mapValues] at hget
    obtain ⟨m, hm, rfl⟩ := Option.map_eq_some_iff.mp hget
    exact h.keyed id m hm
  · intro id
    rw [GuardState.mutateSource, OrderedMap.get?_mapValues, Option.map_map]
    refine congrArg (fun f => Option.map f (s.memories.get? id)) (funext fun memory => ?_)
    show (memory.sourceVersions.map (SourceVersion.mutate sourceUri token)).map SourceVersion.sourceUri = _
    rw [List.map_map]
    refine List.map_congr_left fun source _ => ?_
    show (SourceVersion.mutate sourceUri token source).sourceUri = source.sourceUri
    unfold SourceVersion.mutate
    split_ifs
    · rfl
    · rfl

theorem mutateMemory (h : Kept events s) (memoryId revision status : String) :
    Kept (events ++ [⟨s, .mutateMemory memoryId revision status, .done⟩]) (s.mutateMemory memoryId revision status) := by
  unfold GuardState.mutateMemory
  cases hget : s.memories.get? memoryId with
  | none => exact h.still (fun _ => by simp) (by simp)
  | some memory =>
    refine h.quiet ⟨h.sound.keyed, h.sound.named, h.sound.first⟩ ?_ ?_ rfl rfl rfl (fun _ => by simp) (by simp)
    · intro id m hm
      rw [OrderedMap.get?_set] at hm
      split_ifs at hm with hid
      · cases hm
        rw [hid]
        exact h.keyed memoryId memory hget
      · exact h.keyed id m hm
    · intro id
      rw [OrderedMap.get?_set]
      split_ifs with hid
      · rw [hid, hget]
        rfl
      · rfl

theorem deleteRecreate (h : Kept events s) (resourceId incarnation revision : String) :
    Kept (events ++ [⟨s, .deleteRecreate resourceId incarnation revision, .done⟩])
      (s.deleteRecreate resourceId incarnation revision) := by
  have hkept : (s.deleteRecreate resourceId incarnation revision).memories = s.memories ∧
      (s.deleteRecreate resourceId incarnation revision).receipts = s.receipts ∧
      (s.deleteRecreate resourceId incarnation revision).actions = s.actions := by
    unfold GuardState.deleteRecreate
    cases s.resources.get? resourceId with
    | none | some => exact ⟨rfl, rfl, rfl⟩
  refine h.quiet (h.sound.deleteRecreate _ _ _) ?_ ?_ ?_ hkept.2.1 hkept.2.2 (fun _ => by simp) (by simp)
  · rw [hkept.1]
    exact h.keyed
  · intro id
    rw [hkept.1]
  · rw [GuardState.firstResource_deleteRecreate h.sound.keyed, Option.isSome_map]

/-- The receipt of a validation is for the memory and the resource that it has found. -/
theorem issuedBy (initial : GuardInitial) (h : Kept events s) {input : ValidateInput} {memory : GuardMemory}
    (hget : s.memories.get? (text input.memoryIds.head?) = some memory) (output : GuardOutput) :
    IssuedBy s (receiptIdOf input.intentId) (initial.receipt s input memory) ⟨s, .validate input, output⟩ where
  id := rfl
  memory := by
    refine ⟨memory, ?_, rfl, rfl⟩
    show s.memories.get? memory.memoryId = some memory
    rw [h.keyed _ memory hget]
    exact hget
  resource := by
    show (s.resources.get? (text (s.firstResource.map GuardResource.resourceId))).map GuardResource.incarnation
      = s.firstResource.map (fun _ => text (s.firstResource.map GuardResource.incarnation))
    cases hfirst : s.firstResource with
    | none =>
      have hempty : s.resources.get? (text none) = none := by
        rw [OrderedMap.get?_eq_none_iff, OrderedMap.keys]
        unfold GuardState.firstResource OrderedMap.values at hfirst
        rw [List.head?_eq_none_iff, List.map_eq_nil_iff] at hfirst
        rw [hfirst]
        exact List.not_mem_nil
      rw [Option.map_none, hempty]
      rfl
    | some resource =>
      rw [Option.map_some, show text (some resource.resourceId) = resource.resourceId from rfl,
        GuardState.get?_firstResource h.sound.keyed hfirst]
      rfl
  uris := by
    show (s.memories.get? memory.memoryId).map _ = _
    rw [h.keyed _ memory hget, hget]
    rfl

theorem validate (h : Kept events s) {input : ValidateInput} {output : GuardOutput}
    (hstep : initial.validate s input = .ok (s', output)) :
    Kept (events ++ [⟨s, .validate input, output⟩]) s' := by
  have hsound := h.sound.validate hstep
  unfold GuardInitial.validate at hstep
  obtain ⟨incomplete, -, hstep⟩ := of_bind_ok hstep
  split at hstep
  · cases hstep
    exact h.still (fun _ => by simp) (by simp)
  · split at hstep
    · cases hstep
      exact h.still (fun _ => by simp) (by simp)
    · rename_i memory hget
      split at hstep
      · cases hstep
        exact h.still (fun _ => by simp) (by simp)
      · cases hstep
        refine ⟨hsound, h.keyed, ?_, ?_, List.forall_mem_append.mpr ⟨h.commits, List.forall_mem_singleton.mpr (by simp)⟩⟩
        · intro id receipt hreceipt
          rw [OrderedMap.get?_set] at hreceipt
          rw [issued_snoc]
          split_ifs at hreceipt with hid
          · cases hreceipt
            rw [if_pos (by rw [hid]), hid]
            obtain ⟨hissued, hmemory, hresource, huris⟩ :=
              issuedBy initial h hget (.use (receiptIdOf input.intentId))
            exact ⟨_, rfl, hissued, hmemory, hresource, huris⟩
          · rw [if_neg (fun huse => hid (GuardOutput.use.inj huse).symm)]
            obtain ⟨v, hv, hissued⟩ := h.receipts id receipt hreceipt
            exact ⟨v, hv, hissued.id, hissued.memory, hissued.resource, hissued.uris⟩
        · intro key digest
          rw [h.actions]
          constructor
          · rintro ⟨a, ha, hrest⟩
            exact ⟨a, List.mem_append_left _ ha, hrest⟩
          · rintro ⟨a, ha, houtput, hrest⟩
            rcases List.mem_append.mp ha with ha | ha
            · exact ⟨a, ha, houtput, hrest⟩
            · rw [List.mem_singleton.mp ha] at houtput
              cases houtput

end Kept

/-! ## Commits -/

theorem GuardEvent.key_commit (output : GuardOutput) (h : s.receipts.get? (text input.receipt) = some receipt) :
    (⟨s, .commit input, output⟩ : GuardEvent).key = some receipt.idempotencyKey ∧
      (⟨s, .commit input, output⟩ : GuardEvent).digest = some receipt.actionDigest := by
  unfold GuardEvent.key GuardEvent.digest GuardEvent.receipt
  dsimp only
  rw [h]
  exact ⟨rfl, rfl⟩

theorem GuardEvent.key_missing (output : GuardOutput) (h : s.receipts.get? (text input.receipt) = none) :
    (⟨s, .commit input, output⟩ : GuardEvent).key = some (text input.idempotencyKey) ∧
      (⟨s, .commit input, output⟩ : GuardEvent).digest = some (text input.actionDigest) := by
  unfold GuardEvent.key GuardEvent.digest GuardEvent.receipt
  dsimp only
  rw [h]
  exact ⟨rfl, rfl⟩

theorem rejection_output (h : initial.rejection s receipt = .ok (some output)) : output ≠ .replay ∧ output ≠ .applied ∧
      output ≠ .rejected .idempotencyConflict ∧ ∀ id, output ≠ .use id := by
  unfold GuardInitial.rejection at h
  cases hlease : receipt.lease with
  | none =>
    rw [hlease] at h
    split_ifs at h
    all_goals
      cases h
      simp
  | some lease =>
    rw [hlease] at h
    dsimp only at h
    split_ifs at h
    all_goals cases h <;> simp

theorem Kept.commit {events : List GuardEvent} (h : Kept events s) {input : CommitInput} {output : GuardOutput}
    (hstep : initial.commit s input = .ok (s', output)) :
    Kept (events ++ [⟨s, .commit input, output⟩]) s' := by
  have hsound := h.sound.commit hstep
  rcases GuardInitial.commit_cases hstep with ⟨-, rfl, reason, rfl⟩ | ⟨receipt, hlookup, ⟨hrejection, rfl⟩ | ⟨-, hsettle⟩⟩
  · exact h.still (fun _ => by simp) (by simp)
  · obtain ⟨-, happlied, -, huse⟩ := rejection_output hrejection
    exact h.still huse happlied
  · unfold GuardInitial.settle at hsettle
    cases hget : s.actions.get? receipt.idempotencyKey with
    | some previous =>
      rw [hget] at hsettle
      dsimp only at hsettle
      split_ifs at hsettle
      · cases hsettle
        exact h.still (fun _ => by simp) (by simp)
      · cases hsettle
        exact h.still (fun _ => by simp) (by simp)
    | none =>
      rw [hget] at hsettle
      cases hsettle
      obtain ⟨hkey, hdigest⟩ := GuardEvent.key_commit .applied hlookup
      refine ⟨hsound, h.keyed, ?_, ?_,
        List.forall_mem_append.mpr ⟨h.commits, List.forall_mem_singleton.mpr (fun _ => by rw [hkey]; simp)⟩⟩
      · intro id r hr
        obtain ⟨v, hv, hissued, hmemory, hresource, huris⟩ := h.receipts id r hr
        exact ⟨v, by rw [issued_snoc, if_neg (by simp)]; exact hv, hissued, hmemory, hresource, huris⟩
      · intro key digest
        rw [OrderedMap.get?_set]
        constructor
        · intro hset
          split_ifs at hset with hk
          · cases hset
            exact ⟨_, List.mem_append_right _ List.mem_cons_self, rfl, by rw [hkey, hk], hdigest⟩
          · obtain ⟨a, ha, hrest⟩ := (h.actions key digest).mp hset
            exact ⟨a, List.mem_append_left _ ha, hrest⟩
        · rintro ⟨a, ha, houtput, hak, had⟩
          rcases List.mem_append.mp ha with ha | ha
          · have hold := (h.actions key digest).mpr ⟨a, ha, houtput, hak, had⟩
            split_ifs with hk
            · rw [hk, hget] at hold
              cases hold
            · exact hold
          · obtain rfl := List.mem_singleton.mp ha
            rw [hkey] at hak
            rw [hdigest] at had
            rw [if_pos (Option.some.inj hak).symm, Option.some.inj had]

theorem Kept.step {events : List GuardEvent} (h : Kept events s) {operation : GuardOperation} {output : GuardOutput}
    (hstep : initial.step s operation = .ok (s', output)) : Kept (events ++ [⟨s, operation, output⟩]) s' := by
  cases operation with
  | validate input => exact h.validate hstep
  | mutateSource sourceUri token =>
    cases hstep
    exact h.mutateSource sourceUri token
  | mutateMemory memoryId revision status =>
    cases hstep
    exact h.mutateMemory memoryId revision status
  | deleteRecreate resourceId incarnation revision =>
    cases hstep
    exact h.deleteRecreate resourceId incarnation revision
  | advanceTime now =>
    cases hstep
    exact h.quiet ⟨h.sound.keyed, h.sound.named, h.sound.first⟩ h.keyed (fun _ => rfl) rfl rfl rfl
      (fun _ => by simp) (by simp)
  | commit input => exact h.commit hstep

theorem Ran.kept {events : List GuardEvent} (h : Ran initial events s) : Kept events s := by
  induction h with
  | init => exact Kept.init initial
  | step _ hstep ih => exact ih.step hstep

/-! ## One more step -/

/-- What is promised of a step after others. -/
structure StepSafe (initial : GuardInitial) (events : List GuardEvent) (e : GuardEvent) : Prop where
  once : ∀ a ∈ events, a.output = .applied → e.output = .applied → a.key ≠ e.key
  guarded : e.output = .applied → ∃ receipt v, Guarded initial events e receipt v
  answered : ∀ a ∈ events, a.output = .applied → e.key = a.key →
    e.output = if e.digest = a.digest then .replay else .rejected .idempotencyConflict

theorem guardSafe_snoc {events : List GuardEvent} :
    GuardSafe initial (events ++ [e]) ↔ GuardSafe initial events ∧ StepSafe initial events e := by
  constructor
  · intro h
    obtain ⟨honce, -, honce'⟩ := List.pairwise_append.mp h.once
    obtain ⟨hanswered, -, hanswered'⟩ := List.pairwise_append.mp h.answered
    refine ⟨⟨honce, fun before a after hsplit => ?_, hanswered⟩, ?_, ?_, ?_⟩
    · exact h.guarded before a (after ++ [e]) (by rw [hsplit, List.append_assoc, List.cons_append])
    · exact fun a ha => honce' a ha e List.mem_cons_self
    · exact h.guarded events e [] rfl
    · exact fun a ha => hanswered' a ha e List.mem_cons_self
  · rintro ⟨h, hstep⟩
    refine ⟨?_, ?_, ?_⟩
    · refine List.pairwise_append.mpr ⟨h.once, List.pairwise_singleton _ _, fun a ha b hb => ?_⟩
      rw [List.mem_singleton.mp hb]
      exact hstep.once a ha
    · intro before a after hsplit happlied
      rcases List.eq_nil_or_concat after with rfl | ⟨after', b, rfl⟩
      · obtain ⟨rfl, hlast⟩ := List.append_inj' hsplit rfl
        obtain rfl := (List.cons.inj hlast).1
        exact hstep.guarded happlied
      · rw [List.concat_eq_append, ← List.cons_append, ← List.append_assoc] at hsplit
        obtain ⟨rfl, -⟩ := List.append_inj' hsplit rfl
        exact h.guarded before a after' rfl happlied
    · refine List.pairwise_append.mpr ⟨h.answered, List.pairwise_singleton _ _, fun a ha b hb => ?_⟩
      rw [List.mem_singleton.mp hb]
      exact hstep.answered a ha

theorem Kept.stepSafe {events : List GuardEvent} (h : Kept events s) (hkey : e.key = none)
    (houtput : e.output ≠ .applied) : StepSafe initial events e where
  once := fun _ _ _ h => absurd h houtput
  guarded := fun h => absurd h houtput
  answered := fun a ha happlied hsame => absurd (hsame.symm.trans hkey) (h.commits a ha happlied)

theorem passes_iff (hs : s.Sound) {id : String} (hreceipt : s.receipts.get? id = some receipt)
    {rejection : Option GuardOutput} (h : initial.rejection s receipt = .ok rejection) :
    rejection = none ↔ initial.Current s receipt ∧
      ∀ lease ∈ receipt.lease, ∀ resource ∈ s.firstResource, ¬ initial.Recreated lease resource := by
  rcases GuardInitial.rejections initial hs hreceipt with ⟨output, hold, -, hts, -⟩ | ⟨-, -, e, herror⟩ |
    ⟨lease, hlease, hcurrent, hts, -⟩
  · rw [hts] at h
    cases h
    exact iff_of_false (by simp) fun h => hold h.1
  · rw [herror] at h
    cases h
  · rcases hts with ⟨hts, hmismatch⟩ | ⟨hts, hmismatch⟩
    · rw [hts] at h
      cases h
      obtain ⟨resource, hresource, hrecreated⟩ := GuardInitial.incarnationMismatch_iff.mp hmismatch
      exact iff_of_false (by simp) fun h => h.2 lease hlease resource hresource hrecreated
    · rw [hts] at h
      cases h
      refine iff_of_true rfl ⟨hcurrent, fun l hl resource hresource hrecreated => ?_⟩
      obtain rfl := Option.some.inj (hlease.symm.trans hl)
      rw [GuardInitial.incarnationMismatch_iff.mpr ⟨resource, hresource, hrecreated⟩] at hmismatch
      cases hmismatch

theorem sources_eq {original current : List SourceVersion}
    (huris : current.map SourceVersion.sourceUri = original.map SourceVersion.sourceUri)
    (htokens : ∀ o ∈ original, ∀ c ∈ current, o.sourceUri = c.sourceUri → o.token = c.token) : current = original := by
  induction original generalizing current with
  | nil => exact List.map_eq_nil_iff.mp huris
  | cons o original ih =>
    cases current with
    | nil => cases huris
    | cons c current =>
      obtain ⟨huri, hrest⟩ := List.cons.inj huris
      have hhead : c = o := by
        have htoken := htokens o List.mem_cons_self c List.mem_cons_self huri.symm
        cases c
        cases o
        exact congrArg₂ SourceVersion.mk huri htoken.symm
      have htail : current = original :=
        ih hrest (fun o' ho c' hc => htokens o' (List.mem_cons_of_mem _ ho) c' (List.mem_cons_of_mem _ hc))
      rw [hhead, htail]

theorem get?_resource (hs : s.Sound) {id : String} (hreceipt : s.receipts.get? id = some receipt) :
    s.resources.get? receipt.resourceId = s.firstResource := by
  cases hfirst : s.firstResource with
  | none =>
    rw [OrderedMap.get?_eq_none_iff, OrderedMap.keys]
    unfold GuardState.firstResource OrderedMap.values at hfirst
    rw [List.head?_eq_none_iff, List.map_eq_nil_iff] at hfirst
    rw [hfirst]
    exact List.not_mem_nil
  | some resource =>
    rw [hs.first id receipt hreceipt resource hfirst]
    exact GuardState.get?_firstResource hs.keyed hfirst

theorem guarded_iff {events : List GuardEvent} (h : Kept events s)
    (hlookup : s.receipts.get? (text input.receipt) = some receipt) (hcurrent : initial.Current s receipt) :
    (∃ r v, Guarded initial events ⟨s, .commit input, .applied⟩ r v) ↔
      ∀ resource ∈ s.firstResource, resource.incarnation = receipt.resourceIncarnation := by
  have hpresented : (⟨s, .commit input, .applied⟩ : GuardEvent).receipt = some receipt := hlookup
  obtain ⟨v, hv, hissued⟩ := h.receipts _ receipt hlookup
  have hincarnation : ((s.resources.get? receipt.resourceId).map GuardResource.incarnation
      = (v.before.resources.get? receipt.resourceId).map GuardResource.incarnation) ↔
      ∀ resource ∈ s.firstResource, resource.incarnation = receipt.resourceIncarnation := by
    rw [hissued.resource, get?_resource h.sound hlookup]
    cases s.firstResource with
    | none | some => simp
  constructor
  · rintro ⟨r, w, hguarded⟩
    obtain rfl := Option.some.inj (hpresented.symm.trans hguarded.presented)
    have hw := hguarded.validated
    rw [hissued.id, hv] at hw
    cases hw
    exact hincarnation.mp hguarded.same.incarnation
  · intro hsame
    obtain ⟨memory, hmemory, hrevision, hsources⟩ := hissued.memory
    obtain ⟨memory', hmemory', huris⟩ := Option.map_eq_some_iff.mp hissued.uris
    refine ⟨receipt, v, hpresented, by rw [hissued.id]; exact hv, ⟨?_, ?_, hincarnation.mpr hsame⟩, hcurrent.unexpired,
      hcurrent.leased, hcurrent.cas⟩
    · show (s.memories.get? receipt.memoryId).map _ = _
      rw [hmemory, hmemory', Option.map_some, Option.map_some, hcurrent.revision memory' hmemory', hrevision]
    · show (s.memories.get? receipt.memoryId).map _ = _
      rw [hmemory, hmemory', Option.map_some, Option.map_some, ← hsources,
        sources_eq huris (fun o ho c hc => hcurrent.sources memory' hmemory' o ho c hc)]

theorem Kept.applied {events : List GuardEvent} (h : Kept events s) {a : GuardEvent} (ha : a ∈ events)
    (happlied : a.output = .applied) {key : String} (hkey : a.key = some key) :
    ∃ digest, a.digest = some digest ∧ s.actions.get? key = some digest := by
  have hdigest : ∃ digest, a.digest = some digest := by
    unfold GuardEvent.key at hkey
    unfold GuardEvent.digest
    cases hoperation : a.operation with
    | commit input => exact ⟨_, rfl⟩
    | _ =>
      rw [hoperation] at hkey
      cases hkey
  obtain ⟨digest, hdigest⟩ := hdigest
  exact ⟨digest, hdigest, (h.actions key digest).mpr ⟨a, ha, happlied, hkey, hdigest⟩⟩

theorem stepSafe_iff_answered {events : List GuardEvent} (h : Kept events s) {key digest : String}
    (hkey : e.key = some key) (hdigest : e.digest = some digest) (houtput : e.output ≠ .applied) :
    StepSafe initial events e ↔ ∀ previous, s.actions.get? key = some previous →
      e.output = if digest = previous then .replay else .rejected .idempotencyConflict := by
  constructor
  · intro hsafe previous hprevious
    obtain ⟨a, ha, happlied, hak, had⟩ := (h.actions key previous).mp hprevious
    rw [hsafe.answered a ha happlied (hkey.trans hak.symm), hdigest, had]
    simp only [Option.some.injEq]
  · intro hanswer
    refine ⟨fun _ _ _ h => absurd h houtput, fun h => absurd h houtput, fun a ha happlied hsame => ?_⟩
    obtain ⟨previous, had, hprevious⟩ := h.applied ha happlied (hsame.symm.trans hkey)
    rw [hanswer previous hprevious, hdigest, had]
    simp only [Option.some.injEq]

theorem stepSafe_commit {events : List GuardEvent} (h : Kept events s)
    (hstep : initial.commit s input = .ok (s', output)) :
    StepSafe initial events ⟨s, .commit input, output⟩ ↔ initial.SafeAt s (.commit input) := by
  unfold GuardInitial.SafeAt
  dsimp only
  cases hlookup : s.receipts.get? (text input.receipt) with
  | none =>
    rw [GuardInitial.commit_missing hlookup] at hstep
    obtain ⟨-, houtput⟩ := Prod.mk.inj (Except.ok.inj hstep)
    obtain ⟨hkey, hdigest⟩ := GuardEvent.key_missing output hlookup
    rw [stepSafe_iff_answered h hkey hdigest (by rw [← houtput]; simp)]
    rw [← houtput]
    cases hprevious : s.actions.get? (text input.idempotencyKey) with
    | none => simp
    | some previous =>
      by_cases hsame : previous = text input.actionDigest
      · simp [hsame]
      · simp [hsame, Ne.symm hsame]
  | some receipt =>
    obtain ⟨hkey, hdigest⟩ := GuardEvent.key_commit output hlookup
    rcases GuardInitial.commit_cases hstep with ⟨hnone, -⟩ | ⟨r, hr, hcase⟩
    · rw [hlookup] at hnone
      cases hnone
    · obtain rfl := Option.some.inj (hlookup.symm.trans hr)
      dsimp only
      rcases hcase with ⟨hrejection, rfl⟩ | ⟨hrejection, hsettle⟩
      · -- the commit is rejected before its key is looked up
        obtain ⟨hreplay, happlied, hconflict, -⟩ := rejection_output hrejection
        have hstale := mt (passes_iff h.sound hlookup hrejection).mpr (by simp)
        rw [stepSafe_iff_answered h hkey hdigest happlied]
        split_ifs with hhas
        · obtain ⟨previous, hprevious⟩ := Option.isSome_iff_exists.mp hhas
          refine iff_of_false (fun hanswer => ?_) hstale
          have houtput := hanswer previous hprevious
          split_ifs at houtput
          · exact hreplay houtput
          · exact hconflict houtput
        · refine iff_of_true (fun previous hprevious => ?_) (fun hcurrent hkept => absurd ⟨hcurrent, hkept⟩ hstale)
          exact absurd (Option.isSome_iff_exists.mpr ⟨previous, hprevious⟩) hhas
      · have hpasses := (passes_iff h.sound hlookup hrejection).mp rfl
        unfold GuardInitial.settle at hsettle
        cases hprevious : s.actions.get? receipt.idempotencyKey with
        | some previous =>
          have hhas : s.actions.has receipt.idempotencyKey = true := Option.isSome_iff_exists.mpr ⟨previous, hprevious⟩
          rw [hprevious] at hsettle
          dsimp only at hsettle
          have houtput : output = if receipt.actionDigest = previous then .replay else .rejected .idempotencyConflict := by
            split_ifs at hsettle ⊢ with hsame hsame' hsame'
            · exact (Prod.mk.inj hsettle).2
            · exact absurd hsame.symm hsame'
            · exact absurd hsame'.symm hsame
            · exact (Prod.mk.inj hsettle).2
          have hnot : output ≠ .applied := by
            rw [houtput]
            split_ifs
            · simp
            · simp
          rw [if_pos hhas, stepSafe_iff_answered h hkey hdigest hnot]
          refine iff_of_true (fun p hp => ?_) hpasses
          rw [hprevious] at hp
          rw [← Option.some.inj hp]
          exact houtput
        | none =>
          have hhas : ¬ s.actions.has receipt.idempotencyKey = true := by
            unfold OrderedMap.has
            rw [hprevious]
            simp
          rw [hprevious] at hsettle
          obtain rfl := (Prod.mk.inj hsettle).2
          have hnew : ∀ a ∈ events, a.output = .applied → a.key ≠ some receipt.idempotencyKey := by
            intro a ha happlied hak
            obtain ⟨digest, -, hdigest'⟩ := h.applied ha happlied hak
            rw [hprevious] at hdigest'
            cases hdigest'
          rw [if_neg hhas, ← guarded_iff h hlookup hpasses.1]
          constructor
          · exact fun hsafe _ _ => hsafe.guarded rfl
          · intro hguarded
            refine ⟨fun a ha happlied _ => ?_, fun _ => hguarded hpasses.1 hpasses.2, fun a ha happlied hsame => ?_⟩
            · rw [hkey]
              exact hnew a ha happlied
            · exact absurd (hsame.symm.trans hkey) (hnew a ha happlied)

theorem stepSafe_iff {events : List GuardEvent} (h : Kept events s) {operation : GuardOperation}
    (hstep : initial.step s operation = .ok (s', output)) :
    StepSafe initial events ⟨s, operation, output⟩ ↔ initial.SafeAt s operation := by
  cases operation with
  | validate input =>
    refine iff_of_true (h.stepSafe rfl ?_) trivial
    exact fun happlied => (h.step hstep).commits _ (List.mem_append_right _ List.mem_cons_self) happlied rfl
  | mutateSource sourceUri token =>
    obtain ⟨-, rfl⟩ := Prod.mk.inj (Except.ok.inj hstep)
    exact iff_of_true (h.stepSafe rfl (by simp)) trivial
  | mutateMemory memoryId revision status =>
    obtain ⟨-, rfl⟩ := Prod.mk.inj (Except.ok.inj hstep)
    exact iff_of_true (h.stepSafe rfl (by simp)) trivial
  | deleteRecreate resourceId incarnation revision =>
    obtain ⟨-, rfl⟩ := Prod.mk.inj (Except.ok.inj hstep)
    exact iff_of_true (h.stepSafe rfl (by simp)) trivial
  | advanceTime now =>
    obtain ⟨-, rfl⟩ := Prod.mk.inj (Except.ok.inj hstep)
    exact iff_of_true (h.stepSafe rfl (by simp)) trivial
  | commit input => exact stepSafe_commit h hstep

theorem Ran.guardSafe_iff {events : List GuardEvent} (h : Ran initial events s) :
    GuardSafe initial events ↔ ∀ e ∈ events, initial.SafeAt e.before e.operation := by
  induction h with
  | init =>
    refine iff_of_true ⟨List.Pairwise.nil, fun before e after hsplit => ?_, List.Pairwise.nil⟩ (List.forall_mem_nil _)
    exact absurd hsplit (by simp)
  | step hran hstep ih =>
    rw [guardSafe_snoc, ih, stepSafe_iff hran.kept hstep, List.forall_mem_append, List.forall_mem_singleton]

/-- The steps of a vector keep the promises just when every one finds a state that lets it. -/
theorem rich_guard_safe_iff (vector : GuardVector) :
    GuardSafe vector.initial (vector.initial.events (vector.initial.state GuardReceipt) vector.steps) ↔
      ∀ e ∈ vector.initial.events (vector.initial.state GuardReceipt) vector.steps,
        vector.initial.SafeAt e.before e.operation := by
  obtain ⟨s, hran⟩ := Ran.init.events vector.steps
  exact hran.guardSafe_iff

def oneOClock : UtcInstant where
  value := "2026-08-12T13:00:00Z"
  parts := ⟨2026, 8, 12, 13, 0, 0, 0, (1, 0, 0)⟩
  read := by decide +kernel
  utc := rfl
  valid := by decide

/-- The order is committed, and committed again when the receipt has expired. -/
def committedAgain : GuardVector where
  initial := { oneResource with receiptExpiresAt := some oneOClock }
  steps := [validateOrder, commitOrder, ⟨"wait", .advanceTime oneOClock⟩, commitOrder]

/-- The second commit is not answered as a replay. -/
theorem not_rich_guard_safe : ¬ ∀ vector : GuardVector,
    GuardSafe vector.initial (vector.initial.events (vector.initial.state GuardReceipt) vector.steps) := by
  intro h
  have hevents : (committedAgain.initial.events (committedAgain.initial.state GuardReceipt) committedAgain.steps).map
      (fun e => (e.key, e.digest, e.output)) = [(none, none, .use "receipt:1"), (some "k", some "d", .applied),
        (none, none, .done), (some "k", some "d", .rejected .receiptExpired)] := by
    decide +kernel
  have hanswered : ((committedAgain.initial.events (committedAgain.initial.state GuardReceipt) committedAgain.steps).map
      (fun e => (e.key, e.digest, e.output))).Pairwise (fun a e => a.2.2 = .applied → e.1 = a.1 →
        e.2.2 = if e.2.1 = a.2.1 then .replay else .rejected .idempotencyConflict) :=
    List.pairwise_map.mpr (h committedAgain).answered
  rw [hevents] at hanswered
  exact absurd hanswered (by decide)

end Premise.Evolution
