import Premise.Reference.Proofs.RecomputeProofs

/-!
# Proofs: the replay of an event

On an acyclic graph of known memories `recompute` succeeds, and leaves every memory with the greatest of
its direct status and the statuses of its dependencies. What an event does to the direct statuses is what
it records.
-/

namespace Premise.Reference

open Collections Control Premise.Graph Js Protocol.V1

theorem aggregate_cons (status : MemoryStatus) (l : List MemoryStatus) :
    aggregate (status :: l) = max status (aggregate l) := by
  unfold aggregate
  simp only [List.mem_cons]
  by_cases hinvalid : MemoryStatus.invalid ∈ l
  · cases status <;> simp [hinvalid] <;> decide
  by_cases hunknown : MemoryStatus.unknown ∈ l
  · cases status <;> simp [hinvalid, hunknown] <;> decide
  by_cases hstale : MemoryStatus.stale ∈ l
  · cases status <;> simp [hinvalid, hunknown, hstale] <;> decide
  · cases status <;> simp [hinvalid, hunknown, hstale] <;> decide

theorem aggregate_le_iff {l : List MemoryStatus} {b : MemoryStatus} : aggregate l ≤ b ↔ ∀ x ∈ l, x ≤ b := by
  induction l with
  | nil =>
    refine ⟨fun _ => nofun, fun _ => ?_⟩
    cases b <;> decide
  | cons x l ih => rw [aggregate_cons, max_le_iff, ih, List.forall_mem_cons]

theorem aggregate_eq_maxOf (status : MemoryStatus) (l : List MemoryStatus) : aggregate (status :: l) = maxOf status l := by
  refine eq_of_forall_ge_iff fun b => ?_
  rw [aggregate_le_iff, maxOf_le_iff, List.forall_mem_cons]

namespace Memories

variable {M M' : Memories}

/-- The dependencies are known, and acyclic. -/
structure Shape (M : Memories) : Prop where
  closed : ∀ id, ∀ d ∈ M.dependenciesOf id, d ∈ OrderedMap.keys M
  acyclic : WellFounded (fun d n => d ∈ M.dependenciesOf n)

/-- Only statuses differ. -/
structure SameFacts (M M' : Memories) : Prop where
  keys : OrderedMap.keys M' = OrderedMap.keys M
  facts : ∀ id, (M'.get? id).map (fun m => (m.direct, m.dependsOn))
    = (M.get? id).map (fun m => (m.direct, m.dependsOn))

theorem SameFacts.refl (M : Memories) : SameFacts M M := ⟨rfl, fun _ => rfl⟩

theorem SameFacts.trans {M'' : Memories} (h : SameFacts M M') (h' : SameFacts M' M'') : SameFacts M M'' :=
  ⟨h'.keys.trans h.keys, fun id => (h'.facts id).trans (h.facts id)⟩

theorem SameFacts.direct (h : SameFacts M M') (id : String) :
    (M'.get? id).map Replayed.direct = (M.get? id).map Replayed.direct := by
  have hfacts := congrArg (Option.map Prod.fst) (h.facts id)
  rwa [Option.map_map, Option.map_map] at hfacts

theorem SameFacts.dependenciesOf (h : SameFacts M M') (id : String) : M'.dependenciesOf id = M.dependenciesOf id := by
  have hfacts := congrArg (Option.map Prod.snd) (h.facts id)
  rw [Option.map_map, Option.map_map] at hfacts
  unfold Memories.dependenciesOf
  exact congrArg (fun o => Option.getD o []) hfacts

/-- The status of a memory is the greatest of its direct one and those of its dependencies. -/
def Settled (M : Memories) (id : String) : Prop :=
  ∀ m, M.get? id = some m → m.status = maxOf m.direct (m.dependsOn.map M.statusOf)

theorem dependenciesOf_eq {id : String} {m : Replayed} (h : M.get? id = some m) : M.dependenciesOf id = m.dependsOn := by
  unfold dependenciesOf
  rw [h]
  rfl

theorem statusOf_congr {id : String} (h : M'.get? id = M.get? id) : M'.statusOf id = M.statusOf id := by
  unfold statusOf
  rw [h]

theorem resolve_eq {id : String} {m : Replayed} (h : M.get? id = some m) :
    M.resolve id = M.set id { m with status := maxOf m.direct (m.dependsOn.map M.statusOf) } := by
  unfold resolve
  rw [h]
  dsimp only
  rw [aggregate_eq_maxOf]

theorem sameFacts_resolve (M : Memories) (id : String) : SameFacts M (M.resolve id) := by
  cases hget : M.get? id with
  | none =>
    unfold resolve
    rw [hget]
    exact SameFacts.refl M
  | some m =>
    rw [resolve_eq hget]
    refine ⟨OrderedMap.keys_set_of_mem M (M.mem_keys_of_get? hget), fun id' => ?_⟩
    by_cases hid : id' = id
    · subst hid
      rw [OrderedMap.get?_set_self, hget]
      rfl
    · rw [OrderedMap.get?_set_of_ne _ _ hid]

theorem get?_resolve_of_ne (M : Memories) {id id' : String} (h : id' ≠ id) : (M.resolve id).get? id' = M.get? id' := by
  unfold resolve
  cases M.get? id with
  | none => rfl
  | some m => exact OrderedMap.get?_set_of_ne _ _ h

theorem foldl_resolve {l : List String} (hnodup : l.Nodup)
    (hapart : ∀ id ∈ l, ∀ d ∈ M.dependenciesOf id, d ∉ l) :
    SameFacts M (l.foldl resolve M) ∧ (∀ id, id ∉ l → (l.foldl resolve M).get? id = M.get? id) ∧
    ∀ id ∈ l, ∀ m, M.get? id = some m → (l.foldl resolve M).get? id =
      some { m with status := maxOf m.direct (m.dependsOn.map M.statusOf) } := by
  induction l generalizing M with
  | nil => exact ⟨SameFacts.refl M, fun _ _ => rfl, nofun⟩
  | cons a l ih =>
    obtain ⟨ha, hnodup⟩ := List.nodup_cons.mp hnodup
    have hfirst := sameFacts_resolve M a
    obtain ⟨hsame, houtside, hinside⟩ := ih (M := M.resolve a) hnodup (fun id hid d hd hmem =>
      hapart id (List.mem_cons_of_mem _ hid) d ((hfirst.dependenciesOf id) ▸ hd) (List.mem_cons_of_mem _ hmem))
    rw [List.foldl_cons]
    refine ⟨hfirst.trans hsame, ?_, ?_⟩
    · intro id hid
      rw [List.mem_cons, not_or] at hid
      rw [houtside id hid.2, get?_resolve_of_ne M hid.1]
    · intro id hid m hget
      rcases List.mem_cons.mp hid with rfl | hmem
      · rw [houtside id ha, resolve_eq hget]
        exact OrderedMap.get?_set_self _ _ _
      · have hne : id ≠ a := by
          rintro rfl
          exact ha hmem
        rw [hinside id hmem m ((get?_resolve_of_ne M hne).trans hget)]
        -- The memory resolved first is not a dependency.
        have hstatus : m.dependsOn.map (M.resolve a).statusOf = m.dependsOn.map M.statusOf := by
          refine List.map_congr_left fun d hd => statusOf_congr (get?_resolve_of_ne M ?_)
          rintro rfl
          rw [← dependenciesOf_eq hget] at hd
          exact hapart id (List.mem_cons_of_mem _ hmem) d hd List.mem_cons_self
        rw [hstatus]

/-! ## `recompute` -/

/-- The resolved memories are settled, and depend on resolved ones only. -/
structure Resolving (M : Memories) (r : Resolution) : Prop where
  same : SameFacts M r.memories
  nodup : r.remaining.Nodup
  known : ∀ id, id ∈ OrderedMap.keys M ↔ id ∈ r.remaining ∨ id ∈ r.resolved
  apart : ∀ id ∈ r.remaining, id ∉ r.resolved
  closed : ∀ id ∈ r.resolved, ∀ d ∈ M.dependenciesOf id, d ∈ r.resolved
  settled : ∀ id ∈ r.resolved, r.memories.Settled id

theorem mem_ready {r : Resolution} (hsame : SameFacts M r.memories) (id : String) :
    id ∈ r.ready ↔ id ∈ r.remaining ∧ ∀ d ∈ M.dependenciesOf id, d ∈ r.resolved := by
  unfold Resolution.ready
  rw [mem_sortStrings, List.mem_filter, List.all_eq_true]
  simp only [decide_eq_true_eq, hsame.dependenciesOf]

theorem resolving_start (M : Memories) : Resolving M ⟨OrderedMap.keys M, [], M⟩ where
  same := SameFacts.refl M
  nodup := OrderedMap.keys_nodup M
  known := fun _ => ⟨Or.inl, fun h => h.resolve_right List.not_mem_nil⟩
  apart := fun _ _ => List.not_mem_nil
  closed := fun _ h => absurd h List.not_mem_nil
  settled := fun _ h => absurd h List.not_mem_nil

theorem ready_ne_nil (hshape : Shape M) {r : Resolution} (h : Resolving M r) (hne : r.remaining ≠ []) : r.ready ≠ [] := by
  obtain ⟨id, hid, hmin⟩ := hshape.acyclic.has_min {id | id ∈ r.remaining} (List.exists_mem_of_ne_nil _ hne)
  refine List.ne_nil_of_mem ((mem_ready h.same id).mpr ⟨hid, fun d hd => ?_⟩)
  have hknown := (h.known d).mp (hshape.closed id d hd)
  exact hknown.resolve_left fun hmem => hmin d hmem hd

theorem Resolving.next {r : Resolution} (h : Resolving M r) : Resolving M
      { remaining := r.remaining.filter (fun id => decide (id ∉ r.ready))
        resolved := r.resolved ++ r.ready
        memories := r.ready.foldl resolve r.memories } := by
  have hready := mem_ready h.same
  have hnodup : r.ready.Nodup := sortStrings_nodup (h.nodup.filter _)
  obtain ⟨hsame, houtside, hinside⟩ := foldl_resolve (M := r.memories) hnodup (by
    intro id hid d hd hmem
    rw [h.same.dependenciesOf] at hd
    exact h.apart d ((hready d).mp hmem).1 (((hready id).mp hid).2 d hd))
  have hall := h.same.trans hsame
  refine ⟨hall, h.nodup.filter _, ?_, ?_, ?_, ?_⟩
  · intro id
    rw [h.known, List.mem_filter, decide_eq_true_eq, List.mem_append]
    have hsub : id ∈ r.ready → id ∈ r.remaining := fun hid => ((hready id).mp hid).1
    tauto
  · intro id hid hmem
    rw [List.mem_filter, decide_eq_true_eq] at hid
    rcases List.mem_append.mp hmem with hmem | hmem
    · exact h.apart id hid.1 hmem
    · exact hid.2 hmem
  · intro id hid d hd
    rw [List.mem_append] at hid ⊢
    rcases hid with hid | hid
    · exact .inl (h.closed id hid d hd)
    · exact .inl (((hready id).mp hid).2 d hd)
  · intro id hid m hget
    -- The statuses of resolved memories stay.
    have hstay : ∀ d ∈ r.resolved, (r.ready.foldl resolve r.memories).get? d = r.memories.get? d := by
      intro d hd
      exact houtside d fun hmem => h.apart d ((hready d).mp hmem).1 hd
    have hstatus : ∀ l : List String, (∀ d ∈ l, d ∈ r.resolved) →
        l.map (r.ready.foldl resolve r.memories).statusOf = l.map r.memories.statusOf :=
      fun l hl => List.map_congr_left (fun d hd => statusOf_congr (hstay d (hl d hd)))
    rcases List.mem_append.mp hid with hid | hid
    · rw [hstay id hid] at hget
      have hdeps := h.closed id hid
      rw [← h.same.dependenciesOf, dependenciesOf_eq hget] at hdeps
      rw [hstatus _ hdeps]
      exact h.settled id hid m hget
    · obtain ⟨m0, hold⟩ : ∃ m0, r.memories.get? id = some m0 := by
        refine (r.memories.mem_keys).mp ?_
        rw [h.same.keys, h.known]
        exact .inl ((hready id).mp hid).1
      rw [hinside id hid m0 hold] at hget
      cases hget
      have hdeps := ((hready id).mp hid).2
      rw [← h.same.dependenciesOf, dependenciesOf_eq hold] at hdeps
      exact congrArg (maxOf m0.direct) (hstatus _ hdeps).symm

theorem recompute_spec (hshape : Shape M) : ∃ M', M.recompute = .ok M' ∧ SameFacts M M' ∧ ∀ id, M'.Settled id := by
  obtain ⟨result, hrun, M', rfl, hsame, hsettled⟩ := run_spec recomputeBody
    (fun r => r.remaining.length) (Resolving M)
    (fun result => ∃ M', result = .ok M' ∧ SameFacts M M' ∧ ∀ id, M'.Settled id)
    (by
      intro r r' hr hbody
      unfold recomputeBody at hbody
      split_ifs at hbody with hempty hready
      obtain rfl := Step.again.inj hbody
      refine ⟨hr.next, ?_⟩
      obtain ⟨id, hid⟩ := List.exists_mem_of_ne_nil _ hready
      refine List.length_filter_lt_length_iff_exists.mpr ⟨id, ((mem_ready hr.same id).mp hid).1, ?_⟩
      rw [decide_eq_true_eq]
      exact fun h => h hid)
    (by
      intro r result hr hbody
      unfold recomputeBody at hbody
      split_ifs at hbody with hempty hready
      · obtain rfl := Step.done.inj hbody
        refine ⟨r.memories, rfl, hr.same, fun id m hget => ?_⟩
        have hknown := (hr.known id).mp (by
          rw [← hr.same.keys]
          exact r.memories.mem_keys_of_get? hget)
        rw [hempty] at hknown
        exact hr.settled id (hknown.resolve_left List.not_mem_nil) m hget
      · exact absurd hready (ready_ne_nil hshape hr hempty))
    (M.size + 1) ⟨OrderedMap.keys M, [], M⟩ (resolving_start M)
    (by
      rw [OrderedMap.length_keys]
      exact Nat.lt_succ_self _)
  refine ⟨M', ?_, hsame, hsettled⟩
  unfold recompute
  rw [hrun]
  rfl

theorem withMemory_ok {id : String} {next : Replayed → Replayed} (h : M.withMemory id next = .ok M') :
    ∃ m, M.get? id = some m ∧ M' = M.set id (next m) := by
  unfold withMemory at h
  cases hget : M.get? id with
  | none => rw [hget] at h; cases h
  | some m =>
    rw [hget] at h
    exact ⟨m, rfl, (Except.ok.inj h).symm⟩

theorem get?_applyEvent_of_ne {body : EventBody} (h : M.applyEvent body = .ok M') {id : String}
    (hid : body.memoryId? ≠ some id) : M'.get? id = M.get? id := by
  have hset : ∀ {memoryId : String} {next : Replayed → Replayed}, some memoryId ≠ some id →
      M.withMemory memoryId next = .ok M' → M'.get? id = M.get? id := by
    intro memoryId next hne hwith
    obtain ⟨m, -, rfl⟩ := withMemory_ok hwith
    exact OrderedMap.get?_set_of_ne _ _ fun heq => hne (congrArg some heq.symm)
  cases body with
  | memoryRegistered memoryId envelope =>
    simp only [applyEvent] at h
    split_ifs at h
    cases h
    exact OrderedMap.get?_set_of_ne _ _ fun heq => hid (congrArg some heq.symm)
  | memoryDerived memoryId dependsOn =>
    simp only [applyEvent] at h
    split_ifs at h
    cases h
    exact OrderedMap.get?_set_of_ne _ _ fun heq => hid (congrArg some heq.symm)
  | sourceChanged sourceUri version =>
    cases h
    rfl
  | memoryStaled | memoryInvalidated | memoryRevalidated | memoryReplaced => exact hset hid h

theorem direct_applyEvent {body : EventBody} (h : M.applyEvent body = .ok M') (id : String) :
    (M'.get? id).map Replayed.direct =
      ReferenceProtocol.recordedBy id ((M.get? id).map Replayed.direct) body := by
  unfold ReferenceProtocol.recordedBy
  by_cases hid : body.memoryId? = some id
  · rw [if_pos hid]
    have hset : ∀ {memoryId : String} {next : Replayed → Replayed}, some memoryId = some id →
        M.withMemory memoryId next = .ok M' →
        ∃ m, M.get? id = some m ∧ M'.get? id = some (next m) := by
      intro memoryId next heq hwith
      cases heq
      obtain ⟨m, hget, rfl⟩ := withMemory_ok hwith
      exact ⟨m, hget, OrderedMap.get?_set_self _ _ _⟩
    cases body with
    | memoryRegistered memoryId envelope =>
      cases hid
      simp only [applyEvent] at h
      split_ifs at h
      cases h
      rw [OrderedMap.get?_set_self]
      rfl
    | memoryDerived memoryId dependsOn =>
      cases hid
      simp only [applyEvent] at h
      split_ifs at h
      cases h
      rw [OrderedMap.get?_set_self]
      rfl
    | sourceChanged sourceUri version => cases hid
    | memoryStaled memoryId reason =>
      obtain ⟨m, hget, hget'⟩ := hset hid h
      rw [hget, hget']
      dsimp only [Option.map_some]
      split_ifs <;> rfl
    | memoryInvalidated memoryId reason =>
      obtain ⟨m, hget, hget'⟩ := hset hid h
      rw [hget, hget']
      rfl
    | memoryRevalidated memoryId result status version =>
      obtain ⟨m, hget, hget'⟩ := hset hid h
      rw [hget, hget']
      dsimp only [Option.map_some]
      split_ifs <;> rfl
    | memoryReplaced memoryId replacementMemoryId =>
      obtain ⟨m, hget, hget'⟩ := hset hid h
      rw [hget, hget']
      rfl
  · rw [if_neg hid, get?_applyEvent_of_ne h hid]

end Memories

end Premise.Reference
