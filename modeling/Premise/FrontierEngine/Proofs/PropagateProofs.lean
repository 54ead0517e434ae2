import Premise.FrontierEngine.Proofs.MergeProofs

/-!
# Proofs: `propagateDirty`

Propagation raises the seeds at their own nodes and pushes what changed along the dependents until
nothing is queued. Every round that queues a node has raised a direct root there, so the loop ends;
and the nodes it reports are the ones that are, or transitively depend on, a seed.
-/

namespace Premise.FrontierEngine

open Collections Control Premise.Graph Relation

namespace IncrementalFrontierEngine

variable {e e' : IncrementalFrontierEngine} {dirty : String → Option FrontierStatus}
  {dead stale queued pending : Set String} {n root : String}

/-! ## `affectedFromRoots` -/

theorem affectedOfRoot_charged (e : IncrementalFrontierEngine) (root : String) : Charged e (e.affectedOfRoot root).1 := by
  unfold affectedOfRoot
  cases e.affectedClosureCache.get? root with
  | some nodes => exact count_charged e
  | none => exact (count_charged e).trans (foldl_count_charged _ e.count)

theorem mem_affectedOfRoot (root : String) (h : e.Indexed dirty dead stale queued pending)
    (hok : (e.affectedOfRoot root).1.frontierBudgetExceeded = false) (x : String) :
    (x = root ∨ x ∈ (e.affectedOfRoot root).2) ↔ x = root ∨ x ∈ e.rootNodes root := by
  unfold affectedOfRoot at hok ⊢
  cases hget : e.affectedClosureCache.get? root with
  | some nodes =>
    rw [h.closure root nodes hget x]
    tauto
  | none =>
    rw [hget] at hok
    have hok1 := ((foldl_count_charged _ e.count).within hok).1
    obtain ⟨-, w, hw⟩ := (count_charged e).within hok1
    rw [hw]
    rfl

theorem collectAffected_charged (roots : List String) (affected : OrderedSet String)
    (e : IncrementalFrontierEngine) : Charged e (collectAffected roots affected e).1 := by
  induction roots generalizing affected e with
  | nil => exact Charged.refl e
  | cons root roots ih =>
    rw [collectAffected]
    exact (affectedOfRoot_charged e root).trans (ih _ _)

theorem mem_collectAffected (roots : List String) (affected : OrderedSet String)
    (h : e.Indexed dirty dead stale queued pending)
    (hok : (collectAffected roots affected e).1.frontierBudgetExceeded = false) (x : String) :
    x ∈ (collectAffected roots affected e).2 ↔
      x ∈ affected ∨ ∃ r ∈ roots, x = r ∨ x ∈ e.rootNodes r := by
  induction roots generalizing affected e with
  | nil => simp [collectAffected]
  | cons root roots ih =>
    rw [collectAffected] at hok ⊢
    have hmem := mem_affectedOfRoot root h
    have hch := affectedOfRoot_charged e root
    generalize e.affectedOfRoot root = p at hmem hch hok ⊢
    have hok1 : p.1.frontierBudgetExceeded = false :=
      ((collectAffected_charged roots _ _).within hok).1
    have hnodes : p.1.rootNodes = e.rootNodes := by
      obtain ⟨-, w, hw⟩ := hch.within hok1
      rw [hw]
      rfl
    have hroot := hmem hok1 x
    show x ∈ (collectAffected roots ((affected.add root).addAll p.2) p.1).2 ↔ _
    rw [ih _ (h.charged hch hok1) hok, hnodes, OrderedSet.mem_addAll, OrderedSet.mem_add]
    simp only [List.mem_cons, exists_eq_or_imp]
    rw [← hroot]
    generalize (∃ r ∈ roots, x = r ∨ x ∈ e.rootNodes r) = later
    tauto

theorem cacheClosure_within {result : List String}
    (hok : (e.cacheClosure root result).frontierBudgetExceeded = false) :
    e.frontierBudgetExceeded = false := by
  unfold cacheClosure at hok
  by_cases hfull : (!e.affectedClosureCache.has root
      && decide (e.affectedClosureCache.size ≥ maxAffectedClosureCacheEntries)) = true
  · rw [if_pos hfull] at hok
    cases hkeys : e.affectedClosureCache.keys with
    | nil =>
      rw [hkeys] at hok
      exact ((count_charged _).within hok).1
    | cons oldest rest =>
      rw [hkeys] at hok
      exact ((count_charged _).within ((count_charged _).within hok).1).1
  · rw [if_neg hfull] at hok
    exact ((count_charged _).within hok).1

theorem cacheClosure_spec {result : List String}
    (h : e.Indexed dirty dead stale queued pending)
    (hresult : ∀ x, x ∈ result ↔ x = root ∨ x ∈ e.rootNodes root)
    (hok : (e.cacheClosure root result).frontierBudgetExceeded = false) :
    e.frontierBudgetExceeded = false ∧ (e.cacheClosure root result).Indexed dirty dead stale queued pending ∧
      MergeFrame e (e.cacheClosure root result) ∧
      (e.cacheClosure root result).rootNodes = e.rootNodes := by
  -- the eviction and the insertion both leave a map whose entries are closures
  have key : ∀ e1 : IncrementalFrontierEngine, e1.Indexed dirty dead stale queued pending →
      MergeFrame e e1 → e1.rootNodes = e.rootNodes → ∀ closures : OrderedMap String (List String),
      (∀ r l, closures.get? r = some l → e1.affectedClosureCache.get? r = some l ∨ (r = root ∧ l = result)) →
      (count { e1 with affectedClosureCache := closures }).frontierBudgetExceeded = false →
      e1.frontierBudgetExceeded = false ∧
        (count { e1 with affectedClosureCache := closures }).Indexed dirty dead stale queued pending ∧
        MergeFrame e (count { e1 with affectedClosureCache := closures }) ∧
        (count { e1 with affectedClosureCache := closures }).rootNodes = e.rootNodes := by
    intro e1 h1 hmf1 hnodes1 closures hcl hok1
    obtain ⟨hoke, w, hw⟩ := (count_charged _).within hok1
    rw [hw]
    refine ⟨hoke, ⟨h1.status_dirty, h1.reach, h1.sound, h1.nodes_reach, h1.nodes_mem, h1.dead_nodes,
      h1.entries_le, ?_, h1.frontier, h1.closed, h1.dirty_severe, h1.dirty_known, h1.dirty_alive,
      h1.seeded⟩, hmf1.trans ⟨⟨rfl, rfl, rfl, rfl, rfl, rfl, rfl, rfl⟩, rfl, rfl, rfl⟩, hnodes1⟩
    intro r l hl x
    rcases hcl r l hl with hl | ⟨rfl, rfl⟩
    · exact h1.closure r l hl x
    · rw [hresult x, ← hnodes1]
      rfl
  have hset : ∀ e1 : IncrementalFrontierEngine, ∀ r l, (e1.affectedClosureCache.set root result).get? r = some l →
      e1.affectedClosureCache.get? r = some l ∨ (r = root ∧ l = result) := by
    intro e1 r l hl
    rw [OrderedMap.get?_set] at hl
    split_ifs at hl with hr
    · exact .inr ⟨hr, (Option.some.inj hl).symm⟩
    · exact .inl hl
  unfold cacheClosure at hok ⊢
  by_cases hfull : (!e.affectedClosureCache.has root
      && decide (e.affectedClosureCache.size ≥ maxAffectedClosureCacheEntries)) = true
  · rw [if_pos hfull] at hok ⊢
    cases hkeys : e.affectedClosureCache.keys with
    | nil =>
      rw [hkeys] at hok
      exact key e h (MergeFrame.refl e) rfl _ (hset e) hok
    | cons oldest rest =>
      rw [hkeys] at hok
      have hok1 := ((count_charged _).within hok).1
      obtain ⟨hoke, h1, hmf1, hnodes1⟩ := key e h (MergeFrame.refl e) rfl
        (e.affectedClosureCache.erase oldest) (fun r l hl => by
          rw [OrderedMap.get?_erase] at hl
          split_ifs at hl
          exact .inl hl) hok1
      exact ⟨hoke, (key _ h1 hmf1 hnodes1 _ (hset _) hok).2⟩
  · rw [if_neg hfull] at hok ⊢
    exact key e h (MergeFrame.refl e) rfl _ (hset e) hok

theorem affectedFromRoots_within (roots : List String)
    (hok : (e.affectedFromRoots roots).1.frontierBudgetExceeded = false) :
    e.frontierBudgetExceeded = false := by
  match roots with
  | [] => exact ((collectAffected_charged [] ∅ e).within hok).1
  | r1 :: r2 :: roots => exact ((collectAffected_charged (r1 :: r2 :: roots) ∅ e).within hok).1
  | [root] =>
    simp only [affectedFromRoots] at hok
    cases hget : e.affectedClosureCache.get? root with
    | some result =>
      rw [hget] at hok
      exact ((count_charged e).within hok).1
    | none =>
      rw [hget] at hok
      exact (((count_charged e).trans (collectAffected_charged [root] ∅ e.count)).within (cacheClosure_within hok)).1

theorem affectedFromRoots_spec (roots : List String)
    (h : e.Indexed dirty dead stale queued pending)
    (hok : (e.affectedFromRoots roots).1.frontierBudgetExceeded = false) :
    e.frontierBudgetExceeded = false ∧ (e.affectedFromRoots roots).1.Indexed dirty dead stale queued pending ∧
      MergeFrame e (e.affectedFromRoots roots).1 ∧
      ∀ x, x ∈ (e.affectedFromRoots roots).2 ↔ ∃ r ∈ roots, x = r ∨ x ∈ e.rootNodes r := by
  have hmany : ∀ hok : (collectAffected roots ∅ e).1.frontierBudgetExceeded = false, e.frontierBudgetExceeded = false ∧
      (collectAffected roots ∅ e).1.Indexed dirty dead stale queued pending ∧
      MergeFrame e (collectAffected roots ∅ e).1 ∧
      ∀ x, x ∈ sortStrings (collectAffected roots ∅ e).2.elems ↔
        ∃ r ∈ roots, x = r ∨ x ∈ e.rootNodes r := by
    intro hok
    have hch := collectAffected_charged roots ∅ e
    refine ⟨(hch.within hok).1, h.charged hch hok, hch.mergeFrame hok, fun x => ?_⟩
    rw [mem_sortStrings, ← OrderedSet.mem_def, mem_collectAffected roots ∅ h hok]
    simp
  match roots with
  | [] | _ :: _ :: _ => exact hmany hok
  | [root] =>
    simp only [affectedFromRoots] at hok ⊢
    cases hget : e.affectedClosureCache.get? root with
    | some result =>
      rw [hget] at hok
      have hch := count_charged e
      refine ⟨(hch.within hok).1, h.charged hch hok, hch.mergeFrame hok, fun x => ?_⟩
      rw [h.closure root result hget x]
      simp
    | none =>
      rw [hget] at hok
      have hok2 := cacheClosure_within hok
      have hok1 := ((collectAffected_charged [root] ∅ e.count).within hok2).1
      have hch := (count_charged e).trans (collectAffected_charged [root] ∅ e.count)
      have hmem : ∀ x, x ∈ sortStrings (collectAffected [root] ∅ e.count).2.elems ↔ x = root ∨ x ∈ e.rootNodes root := by
        intro x
        rw [mem_sortStrings, ← OrderedSet.mem_def, mem_collectAffected [root] ∅ (h.charged (count_charged e) hok1) hok2]
        obtain ⟨-, w, hw⟩ := (count_charged e).within hok1
        rw [hw]
        simp [rootNodes]
      have hmem' : ∀ x, x ∈ sortStrings (collectAffected [root] ∅ e.count).2.elems ↔
          x = root ∨ x ∈ (collectAffected [root] ∅ e.count).1.rootNodes root := by
        intro x
        rw [hmem x]
        obtain ⟨-, w, hw⟩ := hch.within hok2
        rw [hw]
        rfl
      obtain ⟨-, hI, hmf, -⟩ := cacheClosure_spec (h.charged hch hok2) hmem' hok
      refine ⟨(hch.within hok2).1, hI, (hch.mergeFrame hok2).trans hmf, fun x => ?_⟩
      rw [hmem x]
      simp

theorem priority_injective {s t : FrontierStatus} (h : s.priority = t.priority) : s = t := by
  cases s <;> cases t <;> first | rfl | cases h

theorem Indexed.status_of_reach (h : e.Indexed dirty dead stale ∅ ∅) {r : String}
    {t : FrontierStatus} (ht : dirty r = some t) (hreach : e.Reach r n) :
    ∃ s, e.rootStatus n r = some s ∧ t.priority ≤ s.priority := by
  induction hreach with
  | refl => exact h.seeded r t ht (Set.notMem_empty r)
  | @tail m p hrm hmp ih =>
    obtain ⟨s, hs, hle⟩ := ih
    obtain ⟨s', hs', hle'⟩ :=
      h.closed m r s (Set.notMem_empty m) (h.dirty_alive r t ht) hs p hmp
    exact ⟨s', hs', hle.trans hle'⟩

theorem Indexed.rootStatus_iff (h : e.Indexed dirty dead stale ∅ ∅) {r : String} (hr : r ∉ dead)
    (s : FrontierStatus) : e.rootStatus n r = some s ↔ dirty r = some s ∧ e.Reach r n := by
  constructor
  · intro hs
    obtain ⟨t, ht, hle⟩ := (h.sound n r s hs).resolve_left hr
    have hreach := h.reach n r s hs
    obtain ⟨s', hs', hle'⟩ := h.status_of_reach ht hreach
    rw [hs] at hs'
    cases hs'
    exact ⟨priority_injective (le_antisymm hle hle') ▸ ht, hreach⟩
  · rintro ⟨ht, hreach⟩
    obtain ⟨s', hs', hle⟩ := h.status_of_reach ht hreach
    obtain ⟨t, ht', hle'⟩ := (h.sound n r s' hs').resolve_left hr
    rw [ht] at ht'
    cases ht'
    rw [hs', priority_injective (le_antisymm hle' hle)]

/-- How far the direct roots are from their greatest severity, summed over all nodes. -/
def deficit (e : IncrementalFrontierEngine) : Nat :=
  (e.dependencies.keys.map (fun n =>
    (e.directDirty.keys.map (fun r => 3 - severity (e.rootStatus n r))).sum)).sum

theorem severity_le (s : Option FrontierStatus) : severity s ≤ 3 := by
  rcases s with _ | s
  · decide
  · cases s <;> decide

theorem severity_mono {a b : Option FrontierStatus}
    (h : ∀ s, a = some s → ∃ s', b = some s' ∧ s.priority ≤ s'.priority) :
    severity a ≤ severity b := by
  cases a with
  | none => exact Nat.zero_le _
  | some s =>
    obtain ⟨s', rfl, hle⟩ := h s rfl
    exact hle

theorem deficit_le_bound (e : IncrementalFrontierEngine) : e.deficit ≤ 3 * (e.dependencies.size * e.directDirty.size) := by
  have hrow : ∀ n, (e.directDirty.keys.map (fun r => 3 - severity (e.rootStatus n r))).sum
      ≤ 3 * e.directDirty.size := by
    intro n
    have h := List.sum_le_card_nsmul (e.directDirty.keys.map (fun r => 3 - severity (e.rootStatus n r))) 3 (by
        intro x hx
        obtain ⟨r, -, rfl⟩ := List.mem_map.mp hx
        omega)
    rw [List.length_map, OrderedMap.length_keys, smul_eq_mul] at h
    omega
  have h := List.sum_le_card_nsmul (e.dependencies.keys.map (fun n =>
    (e.directDirty.keys.map (fun r => 3 - severity (e.rootStatus n r))).sum))
    (3 * e.directDirty.size) (by
      intro x hx
      obtain ⟨n, -, rfl⟩ := List.mem_map.mp hx
      exact hrow n)
  rw [List.length_map, OrderedMap.length_keys, smul_eq_mul] at h
  calc e.deficit ≤ e.dependencies.size * (3 * e.directDirty.size) := h
    _ = 3 * (e.dependencies.size * e.directDirty.size) := by ring

section

variable (h : Grows e e') (halive : ∀ r ∈ e.directDirty.keys, r ∉ e.dead)

include h halive

theorem Grows.severity_le {r : String} (hr : r ∈ e.directDirty.keys) (n : String) :
    severity (e.rootStatus n r) ≤ severity (e'.rootStatus n r) :=
  severity_mono (fun s hs => h.kept n r s (halive r hr) hs)

theorem Grows.deficit_le : e'.deficit ≤ e.deficit := by
  unfold deficit
  rw [h.frame.dependencies, h.frame.directDirty]
  refine List.sum_le_sum fun n _ => List.sum_le_sum (fun r hr => ?_)
  have := h.severity_le halive hr n
  omega

theorem Grows.deficit_lt {r : String} (hn : n ∈ e.dependencies.keys)
    (hr : r ∈ e.directDirty.keys)
    (hlt : severity (e.rootStatus n r) < severity (e'.rootStatus n r)) :
    e'.deficit < e.deficit := by
  unfold deficit
  rw [h.frame.dependencies, h.frame.directDirty]
  refine List.sum_lt_sum _ _ (fun m _ => List.sum_le_sum (fun q hq => ?_)) ⟨n, hn, ?_⟩
  · have := h.severity_le halive hq m
    omega
  · refine List.sum_lt_sum _ _ (fun q hq => ?_) ⟨r, hr, ?_⟩
    · have := h.severity_le halive hq n
      omega
    · have := IncrementalFrontierEngine.severity_le (e'.rootStatus n r)
      omega

end

/-! ## The steps of the propagation -/

/-- The invariant of `propagateDirty`, started in `e₀` with `seeds`: the `pending` seeds were not
    merged yet, and the queued and the `extra` nodes were not passed on yet. -/
structure PropInv (e₀ : IncrementalFrontierEngine) (seeds : List (String × FrontierStatus))
    (pending extra : Set String) (s : PropagateState) : Prop where
  grows : Grows e₀ s.engine
  indexed : s.engine.Indexed e₀.directDirty.get? s.engine.dead ∅ {m | m ∈ s.queue ∨ m ∈ extra}
    pending
  queue_reach : ∀ m ∈ s.queue, ∃ p ∈ seeds, e₀.Reach p.1 m
  affected_reach : ∀ m ∈ s.affected, ∃ p ∈ seeds, e₀.Reach p.1 m
  affected_has : ∀ p ∈ seeds, p.1 ∉ pending → ∀ n st, s.engine.rootStatus n p.1 = some st →
    n ∈ s.affected

def propMeasure (s : PropagateState) : Nat := s.queue.length + s.engine.deficit

section

variable {e₀ : IncrementalFrontierEngine} {seeds : List (String × FrontierStatus)}
  {extra : Set String} {s : PropagateState}

theorem compactResolvedRoots_exceeded (h : e.frontierBudgetExceeded = true) :
    (e.compactResolvedRoots n).1.frontierBudgetExceeded = true := by
  unfold compactResolvedRoots
  cases e.activeDirtyRoots.get? n with
  | none => exact h
  | some roots =>
    dsimp only
    split_ifs with h1 h2
    · exact h
    · rw [compactFrom_exceeded _ _ h]
      exact h
    · rw [compactFrom_exceeded _ _ h] at h2
      simp at h2
    · rw [compactFrom_exceeded _ _ h] at h2
      simp at h2

theorem mergeDirtyState_exceeded (incoming : OrderedMap String FrontierStatus)
    (h : e.frontierBudgetExceeded = true) :
    (e.mergeDirtyState n incoming).1.frontierBudgetExceeded = true := by
  unfold mergeDirtyState
  have hprep : (if e.inactiveDirtyRoots.size > 0 then e.compactResolvedRoots n
      else (e, false)).1.frontierBudgetExceeded = true := by
    split_ifs
    · exact compactResolvedRoots_exceeded h
    · exact h
  generalize (if e.inactiveDirtyRoots.size > 0 then e.compactResolvedRoots n else (e, false)) = p
    at hprep ⊢
  dsimp only
  rw [if_pos hprep]
  exact hprep

theorem PropInv.alive (h : PropInv e₀ seeds pending extra s) : ∀ r ∈ s.engine.directDirty.keys, r ∉ s.engine.dead := by
  intro r hr
  rw [h.grows.frame.directDirty] at hr
  obtain ⟨t, ht⟩ := e₀.directDirty.mem_keys.mp hr
  exact h.indexed.dirty_alive r t ht

theorem PropInv.merge (hg : e₀.GraphInv) (h : PropInv e₀ seeds pending extra s) {m : String}
    {incoming : OrderedMap String FrontierStatus} {affected : OrderedSet String}
    (hinc : s.engine.Incoming e₀.directDirty.get? m incoming.entries)
    (hm : ∃ p ∈ seeds, e₀.Reach p.1 m) (hsub : ∀ x ∈ s.affected, x ∈ affected)
    (hreach : ∀ x ∈ affected, ∃ p ∈ seeds, e₀.Reach p.1 x)
    (hself : ∀ p ∈ incoming.entries, m ∈ affected)
    (hok : (s.engine.mergeDirtyState m incoming).1.frontierBudgetExceeded = false) :
    MergeResult e₀.directDirty.get? {x | x ∈ s.queue ∨ x ∈ extra} pending m incoming.entries s.engine
        (s.engine.mergeDirtyState m incoming) ∧
      PropInv e₀ seeds pending extra
        ⟨affected, if (s.engine.mergeDirtyState m incoming).2 then s.queue ++ [m] else s.queue,
          (s.engine.mergeDirtyState m incoming).1⟩ ∧
      propMeasure ⟨affected,
        if (s.engine.mergeDirtyState m incoming).2 then s.queue ++ [m] else s.queue,
        (s.engine.mergeDirtyState m incoming).1⟩ ≤ propMeasure s := by
  have hres := mergeDirtyState_spec (h.grows.frame.graphInv hg) incoming h.indexed hinc hok
  refine ⟨hres, ?_⟩
  generalize s.engine.mergeDirtyState m incoming = r at hres ⊢
  obtain ⟨e', changed⟩ := r
  have hgrows := h.grows.trans hres.grows
  refine ⟨⟨hgrows, ?_, ?_, hreach, ?_⟩, ?_⟩
  · refine hres.indexed.mono subset_rfl ?_ subset_rfl
    rintro x ((hx | hx) | ⟨hc, rfl⟩)
    · refine .inl ?_
      split_ifs
      · exact List.mem_append_left _ hx
      · exact hx
    · exact .inr hx
    · refine .inl ?_
      rw [if_pos hc]
      exact List.mem_append_right _ (List.mem_singleton.mpr rfl)
  · intro x hx
    split_ifs at hx
    · rcases List.mem_append.mp hx with hx | hx
      · exact h.queue_reach x hx
      · rw [List.mem_singleton.mp hx]
        exact hm
    · exact h.queue_reach x hx
  · intro p hp hpend x st hst
    by_cases hx : x = m
    · subst hx
      rcases hres.origin p.1 st hst with ⟨s0, hs0⟩ | ⟨q, hq, -⟩
      · exact hsub x (h.affected_has p hp hpend x s0 hs0)
      · exact hself q hq
    · have hold := (hres.others x hx p.1).symm.trans hst
      exact hsub x (h.affected_has p hp hpend x st hold)
  · cases changed with
    | false =>
      have := hres.grows.deficit_le h.alive
      simp only [propMeasure, Bool.false_eq_true, if_false] at this ⊢
      omega
    | true =>
      obtain ⟨r, t, ht, hlt⟩ := hres.raised rfl
      have hr : r ∈ s.engine.directDirty.keys := by
        rw [h.grows.frame.directDirty]
        exact e₀.directDirty.mem_keys_of_get? ht
      have hknown : m ∈ s.engine.dependencies.keys := by
        cases hst : e'.rootStatus m r with
        | none => simp [hst, severity] at hlt
        | some s' =>
          have hrm := hres.indexed.reach m r s' hst
          have hrk := hres.indexed.dirty_known r t ht
          have := (hgrows.frame.graphInv hg).reach_known hrk hrm
          rwa [hres.grows.frame.dependencies] at this
      have := hres.grows.deficit_lt h.alive hknown hr hlt
      simp only [propMeasure, if_true, List.length_append, List.length_singleton] at this ⊢
      omega

/-- The dependent `m` has every active root of `id`, as severe or more. -/
def Covered (e : IncrementalFrontierEngine) (id m : String) : Prop :=
  ∀ r s, r ∉ e.dead → e.rootStatus id r = some s →
    ∃ s', e.rootStatus m r = some s' ∧ s.priority ≤ s'.priority

theorem mem_foldl_add {α : Type} (l : List α) (affected : OrderedSet String) (d x : String) :
    x ∈ l.foldl (fun affected _ => affected.add d) affected ↔ x ∈ affected ∨ (l ≠ [] ∧ x = d) := by
  induction l generalizing affected with
  | nil => simp
  | cons a l ih =>
    rw [List.foldl_cons, ih, OrderedSet.mem_add]
    simp only [ne_eq, reduceCtorEq, not_false_eq_true, true_and]
    tauto

theorem propagateEdges_exceeded (roots : OrderedMap String FrontierStatus) (rest : List String)
    (s : PropagateState) (h : s.engine.frontierBudgetExceeded = true) :
    (propagateEdges roots rest s).engine.frontierBudgetExceeded = true := by
  induction rest generalizing s with
  | nil => exact h
  | cons d rest ih =>
    simp only [propagateEdges]
    exact ih _ (mergeDirtyState_exceeded roots h)

theorem propagateEdges_spec (hg : e₀.GraphInv) {id : String}
    (roots : OrderedMap String FrontierStatus) (rest : List String) (s : PropagateState)
    (h : PropInv e₀ seeds pending {id} s) (hid : ∃ p ∈ seeds, e₀.Reach p.1 id)
    (hroots : ∀ r, roots.get? r = s.engine.rootStatus id r) (hedges : ∀ m ∈ rest, e₀.Edge id m)
    (hcovered : ∀ m, e₀.Edge id m → m ∈ rest ∨ s.engine.Covered id m)
    (hok : (propagateEdges roots rest s).engine.frontierBudgetExceeded = false) :
    PropInv e₀ seeds pending {id} (propagateEdges roots rest s) ∧
      (∀ m, e₀.Edge id m → (propagateEdges roots rest s).engine.Covered id m) ∧
      propMeasure (propagateEdges roots rest s) ≤ propMeasure s := by
  induction rest generalizing s with
  | nil =>
    exact ⟨h, fun m hm => (hcovered m hm).resolve_left List.not_mem_nil, le_rfl⟩
  | cons d rest ih =>
    simp only [propagateEdges] at hok ⊢
    have hd : e₀.Edge id d := hedges d (List.mem_cons_self ..)
    have hne : id ≠ d := fun hid => hg.not_edge_self d (hid ▸ hd)
    obtain ⟨p, hp, hpid⟩ := hid
    have hpd : ∃ p ∈ seeds, e₀.Reach p.1 d := ⟨p, hp, ReflTransGen.tail hpid hd⟩
    have hreachEq : s.engine.Reach = e₀.Reach := reach_congr h.grows.frame.dependents
    have hinc : s.engine.Incoming e₀.directDirty.get? d roots.entries := by
      rintro ⟨r, st⟩ hr
      have hst : s.engine.rootStatus id r = some st := by
        rw [← hroots]
        exact roots.get?_eq_some_iff.mpr hr
      rcases h.indexed.sound id r st hst with hdead | hlive
      · exact .inl ⟨hdead, id, hne, st, hst⟩
      · refine .inr ⟨hlive, ?_, h.indexed.status_dirty id r st hst⟩
        have hrid := h.indexed.reach id r st hst
        rw [hreachEq] at hrid ⊢
        exact ReflTransGen.tail hrid hd
    have hok1 : (s.engine.mergeDirtyState d roots).1.frontierBudgetExceeded = false := by
      rw [Bool.eq_false_iff]
      intro hx
      have := propagateEdges_exceeded roots rest ⟨roots.keys.foldl (fun affected _ => affected.add d)
        s.affected, if (s.engine.mergeDirtyState d roots).2 then s.queue ++ [d] else s.queue,
        (s.engine.mergeDirtyState d roots).1⟩ hx
      rw [this] at hok
      cases hok
    have hkeys : ∀ q ∈ roots.entries, roots.keys ≠ [] := by
      intro q hq hnil
      have hmem : q.1 ∈ roots.keys := List.mem_map.mpr ⟨q, hq, rfl⟩
      rw [hnil] at hmem
      cases hmem
    obtain ⟨hres, hinv, hle⟩ := h.merge hg (m := d) hinc hpd
      (fun x hx => (mem_foldl_add _ _ _ _).mpr (Or.inl hx))
      (fun x hx => by
        rcases (mem_foldl_add _ _ _ _).mp hx with hx | ⟨-, rfl⟩
        · exact h.affected_reach x hx
        · exact hpd)
      (fun q hq => (mem_foldl_add _ _ _ _).mpr (Or.inr ⟨hkeys q hq, rfl⟩)) hok1
    generalize s.engine.mergeDirtyState d roots = r at hres hinv hle hok ⊢
    have hsame : ∀ x, r.1.rootStatus id x = s.engine.rootStatus id x := hres.others id hne
    -- an active root after the merge was active before it
    have hactive : ∀ x st, x ∉ r.1.dead → r.1.rootStatus id x = some st → x ∉ s.engine.dead := by
      intro x st hx hst
      obtain ⟨t, ht, -⟩ := (hres.indexed.sound id x st hst).resolve_left hx
      exact h.indexed.dirty_alive x t ht
    obtain ⟨h1, h2, h3⟩ := ih _ hinv (fun x => (hroots x).trans (hsame x).symm)
      (fun m hm => hedges m (List.mem_cons_of_mem _ hm)) (by
        intro m hm
        by_cases hmd : m = d
        · subst hmd
          refine .inr fun x st hx hst => ?_
          have hlive := hactive x st hx hst
          rw [hsame, ← hroots] at hst
          exact hres.merged (x, st) (roots.get?_eq_some_iff.mp hst) hlive
        · rcases hcovered m hm with hin | hcov
          · exact .inl ((List.mem_cons.mp hin).resolve_left hmd)
          · refine .inr fun x st hx hst => ?_
            have hlive := hactive x st hx hst
            rw [hsame] at hst
            obtain ⟨s', hs', hle'⟩ := hcov x st hlive hst
            obtain ⟨s'', hs'', hle''⟩ := hres.grows.kept m x s' hlive hs'
            exact ⟨s'', hs'', hle'.trans hle''⟩) hok
    exact ⟨h1, h2, h3.trans hle⟩

theorem propagateBody_spec (hg : e₀.GraphInv) {s s' : PropagateState}
    (h : PropInv e₀ seeds pending ∅ s) (hb : propagateBody s = .again s')
    (hok : s'.engine.frontierBudgetExceeded = false) :
    PropInv e₀ seeds pending ∅ s' ∧ propMeasure s' < propMeasure s := by
  obtain ⟨affected, queue, engine⟩ := s
  cases queue with
  | nil => simp [propagateBody] at hb
  | cons id queue =>
    simp only [propagateBody] at hb
    split_ifs at hb with hex
    obtain rfl := Step.again.inj hb
    have hdep : engine.dependents = e₀.dependents := h.grows.frame.dependents
    have hpop : PropInv e₀ seeds pending {id} ⟨affected, queue, engine⟩ := by
      refine ⟨h.grows, h.indexed.mono subset_rfl ?_ subset_rfl,
        fun m hm => h.queue_reach m (List.mem_cons_of_mem _ hm), h.affected_reach, h.affected_has⟩
      rintro m (hm | hm)
      · rcases List.mem_cons.mp hm with rfl | hm
        · exact .inr rfl
        · exact .inl hm
      · exact absurd hm (Set.notMem_empty m)
    obtain ⟨h1, h2, h3⟩ := propagateEdges_spec hg ((engine.activeDirtyRoots.get? id).getD ∅)
      (sortStrings (engine.dependents.neighbours id)) ⟨affected, queue, engine⟩ hpop
      (h.queue_reach id (List.mem_cons_self ..)) (fun _ => rfl)
      (fun m hm => by
        rw [mem_sortStrings, hdep] at hm
        exact hm)
      (fun m hm => by
        refine .inl (mem_sortStrings.mpr ?_)
        rw [hdep]
        exact hm) hok
    generalize propagateEdges ((engine.activeDirtyRoots.get? id).getD ∅)
      (sortStrings (engine.dependents.neighbours id)) ⟨affected, queue, engine⟩ = s' at h1 h2 h3 ⊢
    refine ⟨⟨h1.grows, ?_, h1.queue_reach, h1.affected_reach, h1.affected_has⟩, ?_⟩
    · refine { h1.indexed with
        closed := fun n r st hn hr hst m hm => ?_
        frontier := h1.indexed.frontier }
      by_cases hnid : n = id
      · subst hnid
        rw [edge_congr h1.grows.frame.dependents] at hm
        exact h2 m hm r st hr hst
      · refine h1.indexed.closed n r st ?_ hr hst m hm
        rintro (hq | hq)
        · exact hn (Or.inl hq)
        · exact hnid hq
    · refine lt_of_le_of_lt h3 ?_
      simp only [propMeasure, List.length_cons]
      omega

theorem propagateSeeds_exceeded (rest : List (String × FrontierStatus)) (s : PropagateState)
    (h : s.engine.frontierBudgetExceeded = true) : propagateSeeds rest s = s := by
  cases rest with
  | nil => rfl
  | cons p rest => simp [propagateSeeds, h]

theorem propagateSeeds_queue (rest : List (String × FrontierStatus)) (s : PropagateState) :
    (propagateSeeds rest s).queue.length ≤ s.queue.length + rest.length := by
  induction rest generalizing s with
  | nil => exact le_rfl
  | cons p rest ih =>
    simp only [propagateSeeds]
    split_ifs with hex hch
    · omega
    · refine (ih _).trans ?_
      simp only [List.length_append, List.length_cons, List.length_nil]
      omega
    · refine (ih _).trans ?_
      simp only [List.length_cons]
      omega

theorem propagateSeeds_spec (hg : e₀.GraphInv) (rest : List (String × FrontierStatus))
    (s : PropagateState) (h : PropInv e₀ seeds {x | ∃ p ∈ rest, p.1 = x} ∅ s)
    (hsub : ∀ p ∈ rest, p ∈ seeds) (hdirty : ∀ p ∈ rest, e₀.directDirty.get? p.1 = some p.2)
    (hok : (propagateSeeds rest s).engine.frontierBudgetExceeded = false) :
    PropInv e₀ seeds ∅ ∅ (propagateSeeds rest s) := by
  induction rest generalizing s with
  | nil =>
    have hempty : {x | ∃ p ∈ ([] : List (String × FrontierStatus)), p.1 = x} = ∅ := by
      ext x
      simp
    rw [hempty] at h
    exact h
  | cons p rest ih =>
    obtain ⟨id, value⟩ := p
    simp only [propagateSeeds] at hok ⊢
    by_cases hex : s.engine.frontierBudgetExceeded = true
    · rw [if_pos hex] at hok
      rw [hex] at hok
      cases hok
    rw [if_neg hex] at hok ⊢
    have hseed : (id, value) ∈ seeds := hsub _ (List.mem_cons_self ..)
    have hval : e₀.directDirty.get? id = some value := hdirty (id, value) (List.mem_cons_self ..)
    have hself : ∃ p ∈ seeds, e₀.Reach p.1 id := ⟨_, hseed, ReflTransGen.refl⟩
    have hentries : (OrderedMap.ofList [(id, value)]).entries = [(id, value)] := rfl
    have hinc : s.engine.Incoming e₀.directDirty.get? id (OrderedMap.ofList [(id, value)]).entries := by
      rw [hentries]
      intro q hq
      rw [List.mem_singleton.mp hq]
      exact .inr ⟨⟨value, hval, le_rfl⟩, ReflTransGen.refl, h.indexed.dirty_severe id value hval⟩
    have hok2 : ((s.engine.mergeDirtyState id (OrderedMap.ofList [(id, value)])).1.affectedFromRoots
        [id]).1.frontierBudgetExceeded = false := by
      rw [Bool.eq_false_iff]
      intro hx
      rw [propagateSeeds_exceeded _ _ hx] at hok
      rw [hx] at hok
      cases hok
    have hok1 := affectedFromRoots_within [id] hok2
    obtain ⟨hres, hinv, -⟩ := h.merge hg (m := id) hinc hself
      (fun x hx => OrderedSet.mem_add.mpr (Or.inr hx))
      (fun x hx => by
        rcases OrderedSet.mem_add.mp hx with rfl | hx
        · exact hself
        · exact h.affected_reach x hx)
      (fun _ _ => OrderedSet.mem_add.mpr (Or.inl rfl)) hok1
    rw [hentries] at hres
    generalize s.engine.mergeDirtyState id (OrderedMap.ofList [(id, value)]) = r
      at hres hinv hok hok1 hok2 ⊢
    obtain ⟨e1, changed⟩ := r
    obtain ⟨-, hI2, hmf, hknown⟩ := affectedFromRoots_spec [id] hinv.indexed hok2
    generalize e1.affectedFromRoots [id] = r at hI2 hmf hknown hok hok2 ⊢
    obtain ⟨e2, known⟩ := r
    have hknown' : ∀ x, x ∈ known ↔ x = id ∨ x ∈ e1.rootNodes id := by
      intro x
      rw [hknown x]
      simp
    have hgrows : Grows e1 e2 := by
      refine ⟨hmf.frame, by rw [hmf.dead_eq], ?_⟩
      intro n r st _ hst
      exact ⟨st, by rw [hmf.rootStatus_eq]; exact hst, le_rfl⟩
    refine ih _ ⟨hinv.grows.trans hgrows, ?_, hinv.queue_reach, ?_, ?_⟩
      (fun p hp => hsub p (List.mem_cons_of_mem _ hp))
      (fun p hp => hdirty p (List.mem_cons_of_mem _ hp)) hok
    · dsimp only at hI2 ⊢
      rw [hmf.dead_eq]
      refine { hI2 with
        seeded := fun r t ht hr => ?_
        closed := hI2.closed
        frontier := hI2.frontier }
      by_cases hrid : r = id
      · subst hrid
        rw [hval] at ht
        cases ht
        rw [hmf.rootStatus_eq]
        exact hres.merged (r, value) (List.mem_singleton.mpr rfl) (h.indexed.dirty_alive r value hval)
      · refine hI2.seeded r t ht ?_
        rintro ⟨q, hq, hqr⟩
        rcases List.mem_cons.mp hq with rfl | hq
        · exact hrid hqr.symm
        · exact hr ⟨q, hq, hqr⟩
    · intro x hx
      rcases OrderedSet.mem_addAll.mp hx with hx | hx
      · rcases (hknown' x).mp hx with rfl | hx
        · exact hself
        · refine ⟨_, hseed, ?_⟩
          have := hinv.indexed.nodes_reach id x hx
          rwa [reach_congr hinv.grows.frame.dependents] at this
      · exact hinv.affected_reach x hx
    · intro q hq hpend n st hst
      rw [hmf.rootStatus_eq] at hst
      by_cases hqid : q.1 = id
      · rw [hqid] at hst
        refine OrderedSet.mem_addAll.mpr (Or.inl ((hknown' n).mpr (Or.inr ?_)))
        exact hinv.indexed.nodes_mem n id st hst
      · refine OrderedSet.mem_addAll.mpr (Or.inr (hinv.affected_has q hq ?_ n st hst))
        rintro ⟨q', hq', he⟩
        rcases List.mem_cons.mp hq' with rfl | hq'
        · exact hqid he.symm
        · exact hpend ⟨q', hq', he⟩

end

theorem propagateDirty_within {seeds : List (String × FrontierStatus)}
    (hok : (e.propagateDirty seeds).1.frontierBudgetExceeded = false) :
    e.frontierBudgetExceeded = false := by
  cases hx : e.frontierBudgetExceeded with
  | false => rfl
  | true =>
    have hrun : run propagateBody (e.propagationRounds seeds) ⟨∅, [], e⟩ = some ⟨∅, [], e⟩ := rfl
    unfold propagateDirty at hok
    rw [propagateSeeds_exceeded seeds ⟨∅, [], e⟩ hx] at hok
    dsimp only at hok
    rw [hrun, Option.getD_some, hx] at hok
    cases hok

theorem propagateDirty_spec (hg : e.GraphInv) (seeds : List (String × FrontierStatus))
    (h : e.Propagating ∅ {x | ∃ p ∈ seeds, p.1 = x})
    (hdirty : ∀ p ∈ seeds, e.directDirty.get? p.1 = some p.2)
    (hok : (e.propagateDirty seeds).1.frontierBudgetExceeded = false) :
    e.frontierBudgetExceeded = false ∧ Grows e (e.propagateDirty seeds).1 ∧ (e.propagateDirty seeds).1.Propagating ∅ ∅ ∧
      ∀ x, x ∈ (e.propagateDirty seeds).2 ↔ ∃ p ∈ seeds, e.Reach p.1 x := by
  unfold propagateDirty at hok ⊢
  dsimp only at hok ⊢
  have hstart : PropInv e seeds {x | ∃ p ∈ seeds, p.1 = x} ∅ ⟨∅, [], e⟩ := by
    refine ⟨Grows.refl e, h.mono subset_rfl (Set.empty_subset _) subset_rfl, by simp, by simp, ?_⟩
    intro p hp hpend
    exact absurd ⟨p, hp, rfl⟩ hpend
  have hseeds := propagateSeeds_spec hg seeds ⟨∅, [], e⟩ hstart (fun _ hp => hp) hdirty
  have hqueue := propagateSeeds_queue seeds ⟨∅, [], e⟩
  have hwithin : (propagateSeeds seeds ⟨∅, [], e⟩).engine.frontierBudgetExceeded = false →
      e.frontierBudgetExceeded = false := by
    intro hs
    cases hx : e.frontierBudgetExceeded with
    | false => rfl
    | true =>
      rw [propagateSeeds_exceeded seeds ⟨∅, [], e⟩ hx] at hs
      exact absurd hs (by simp [hx])
  generalize propagateSeeds seeds ⟨∅, [], e⟩ = s at hseeds hqueue hwithin hok ⊢
  -- a run of the loop that does not exceed the budget ends with an empty queue
  obtain ⟨s', hrun, hpost⟩ := run_spec propagateBody
    (fun s => if s.engine.frontierBudgetExceeded then 0 else 1 + propMeasure s)
    (fun t => (t.engine.frontierBudgetExceeded = false → s.engine.frontierBudgetExceeded = false ∧ PropInv e seeds ∅ ∅ t))
    (fun t => t.engine.frontierBudgetExceeded = false →
      s.engine.frontierBudgetExceeded = false ∧ PropInv e seeds ∅ ∅ t ∧ t.queue = [])
    (by
      intro t t' ht hb
      have hnex : t.engine.frontierBudgetExceeded = false := by
        rw [Bool.eq_false_iff]
        intro hx
        obtain ⟨affected, queue, engine⟩ := t
        cases queue with
        | nil => simp [propagateBody] at hb
        | cons id queue =>
          dsimp only at hx
          simp [propagateBody, hx] at hb
      obtain ⟨hs, hinv⟩ := ht hnex
      refine ⟨fun hok' => ⟨hs, (propagateBody_spec hg hinv hb hok').1⟩, ?_⟩
      have hbefore : ¬ t.engine.frontierBudgetExceeded = true := by simp [hnex]
      rw [if_neg hbefore]
      split_ifs with hx
      · omega
      · have := (propagateBody_spec hg hinv hb (by simpa using hx)).2
        omega)
    (by
      intro t t' ht hb hok'
      obtain ⟨affected, queue, engine⟩ := t
      cases queue with
      | nil =>
        obtain rfl := Step.done.inj hb
        obtain ⟨hs, hinv⟩ := ht hok'
        exact ⟨hs, hinv, rfl⟩
      | cons id queue =>
        simp only [propagateBody] at hb
        split_ifs at hb with hx
        obtain rfl := Step.done.inj hb
        rw [hx] at hok'
        cases hok')
    (e.propagationRounds seeds) s (fun hs => ⟨hs, hseeds hs⟩) (by
      split_ifs with hx
      · rw [propagationRounds]
        omega
      · have hs := hseeds (by simpa using hx)
        have hb := s.engine.deficit_le_bound
        rw [hs.grows.frame.dependencies, hs.grows.frame.directDirty] at hb
        simp only [List.length_nil] at hqueue
        simp only [propMeasure, propagationRounds]
        omega)
  rw [hrun, Option.getD_some] at hok ⊢
  obtain ⟨hs, hinv, hnil⟩ := hpost hok
  have hsettled : s'.engine.Propagating ∅ ∅ := by
    have hI := hinv.indexed
    have hset : {m | m ∈ s'.queue ∨ m ∈ (∅ : Set String)} = ∅ := by
      ext m
      simp [hnil]
    rw [hset] at hI
    unfold Propagating
    rw [hinv.grows.frame.directDirty]
    exact hI
  refine ⟨hwithin hs, hinv.grows, hsettled, fun x => ?_⟩
  rw [mem_sortStrings, ← OrderedSet.mem_def]
  constructor
  · exact hinv.affected_reach x
  · rintro ⟨p, hp, hreach⟩
    have ht : s'.engine.directDirty.get? p.1 = some p.2 := by
      rw [hinv.grows.frame.directDirty]
      exact hdirty p hp
    rw [← reach_congr hinv.grows.frame.dependents] at hreach
    obtain ⟨st, hst, -⟩ := hsettled.status_of_reach ht hreach
    exact hinv.affected_has p hp (Set.notMem_empty _) x st hst

end IncrementalFrontierEngine

end Premise.FrontierEngine
