import Premise.FrontierEngine.Proofs.BudgetProofs

/-!
# Proofs: the single updates of the indexes

Every maintenance method is made of four updates of the indexes: a root of a node is raised, a
tombstone is removed from a node, a root without entries is forgotten, and the frontier of a node is
stored. Each of them keeps the invariant `Indexed`.
-/

namespace Premise.FrontierEngine

open Collections Premise.Graph Relation

namespace IncrementalFrontierEngine

variable {e e' e'' : IncrementalFrontierEngine} {dirty : String → Option FrontierStatus}
  {dead stale queued pending : Set String}

theorem Frame.refl (e : IncrementalFrontierEngine) : Frame e e :=
  ⟨rfl, rfl, rfl, rfl, rfl, rfl, rfl, rfl⟩

theorem Frame.trans (h : Frame e e') (h' : Frame e' e'') : Frame e e'' where
  maxWork := h'.maxWork.trans h.maxWork
  dependencies := h'.dependencies.trans h.dependencies
  dependents := h'.dependents.trans h.dependents
  directDirty := h'.directDirty.trans h.directDirty
  frontierCache := h'.frontierCache.trans h.frontierCache
  generation := h'.generation.trans h.generation
  graphRevision := h'.graphRevision.trans h.graphRevision
  trusted := h'.trusted.trans h.trusted

theorem edge_congr (h : e'.dependents = e.dependents) : e'.Edge = e.Edge := by
  funext a b
  unfold Edge
  rw [h]

theorem reach_congr (h : e'.dependents = e.dependents) : e'.Reach = e.Reach := by
  unfold Reach
  rw [edge_congr h]

theorem below_congr (h : e'.dependents = e.dependents) : e'.Below = e.Below := by
  unfold Below
  rw [edge_congr h]

theorem GraphInv.congr (hg : e.GraphInv) (hdeps : e'.dependencies = e.dependencies)
    (hdents : e'.dependents = e.dependents) : e'.GraphInv := by
  have hch : e'.DependsOn = e.DependsOn := by
    funext a b
    unfold DependsOn
    rw [hdeps]
  refine ⟨?_, ?_, ?_, ?_⟩
  · rw [hch, edge_congr hdents]
    exact hg.mirror
  · rw [hch, hdeps]
    exact hg.known
  · rw [hch]
    exact hg.acyclic
  · rw [hdeps]
    exact hg.named

theorem Frame.graphInv (h : Frame e e') (hg : e.GraphInv) : e'.GraphInv :=
  hg.congr h.dependencies h.dependents

section

variable (h : e.Indexed dirty dead stale queued pending)
include h

theorem Indexed.mono {stale' queued' pending' : Set String} (hs : stale ⊆ stale') (hq : queued ⊆ queued')
    (hp : pending ⊆ pending') : e.Indexed dirty dead stale' queued' pending' :=
  { h with
    frontier := fun n hn => h.frontier n (fun hs' => hn (hs hs'))
    closed := fun n r s hn => h.closed n r s (fun hq' => hn (hq hq'))
    seeded := fun r t hr hn => h.seeded r t hr (fun hp' => hn (hp hp')) }

theorem Indexed.congr
    (hdeps : e'.dependencies = e.dependencies) (hdents : e'.dependents = e.dependents)
    (hst : e'.rootStatus = e.rootStatus) (hnodes : e'.rootNodes = e.rootNodes)
    (hclosure : e'.affectedClosureCache = e.affectedClosureCache)
    (hentries : ∀ r, e'.rootEntries r ≤ (e'.rootEntryCounts.get? r).getD 0)
    (hfrontier : e'.nodeFrontier = e.nodeFrontier) :
    e'.Indexed dirty dead stale queued pending := by
  have hedge := edge_congr hdents
  have hreach := reach_congr hdents
  have hbelow := below_congr hdents
  obtain ⟨h1, h2, h3, h4, h5, h6, -, h8, h9, h10, h11, h12, h13, h14⟩ := h
  refine ⟨?_, ?_, ?_, ?_, ?_, ?_, hentries, ?_, ?_, ?_, h11, ?_, h13, ?_⟩
  · rwa [hst]
  · rwa [hst, hreach]
  · rwa [hst]
  · rwa [hnodes, hreach]
  · rwa [hst, hnodes]
  · rwa [hnodes, hreach]
  · rwa [hclosure, hnodes]
  · rwa [hst, hbelow, hfrontier]
  · rwa [hst, hedge]
  · rwa [hdeps]
  · rwa [hst]

theorem Indexed.raise {n root : String} {status : FrontierStatus}
    (hdeps : e'.dependencies = e.dependencies) (hdents : e'.dependents = e.dependents)
    (hst : ∀ m r, e'.rootStatus m r
      = if m = n ∧ r = root then some status else e.rootStatus m r)
    (hnodes : ∀ r m, m ∈ e'.rootNodes r ↔ m ∈ e.rootNodes r ∨ (r = root ∧ m = n))
    (hclosure : ∀ r l, e'.affectedClosureCache.get? r = some l →
      e.affectedClosureCache.get? r = some l ∧ (r = root → n ∈ e.rootNodes root))
    (hentries : ∀ r, e'.rootEntries r ≤ (e'.rootEntryCounts.get? r).getD 0)
    (hfrontier : ∀ m, m ≠ n → e'.nodeFrontier m = e.nodeFrontier m)
    (hsevere : status ≠ .fresh) (hreach : e.Reach root n)
    (hsound : root ∈ dead ∨ ∃ t, dirty root = some t ∧ status.priority ≤ t.priority)
    (hup : root ∈ dead ∨ ∀ s, e.rootStatus n root = some s → s.priority ≤ status.priority)
    (hstale : n ∈ stale) (hqueued : root ∈ dead ∨ n ∈ queued) :
    e'.Indexed dirty dead stale queued pending := by
  have hreachEq : e'.Reach = e.Reach := reach_congr hdents
  refine ⟨?_, ?_, ?_, ?_, ?_, ?_, hentries, ?_, ?_, ?_, h.dirty_severe, ?_, h.dirty_alive, ?_⟩
  · intro m r s hs
    rw [hst] at hs
    split_ifs at hs with hmr
    · exact (Option.some.inj hs) ▸ hsevere
    · exact h.status_dirty m r s hs
  · intro m r s hs
    rw [hst] at hs
    rw [hreachEq]
    split_ifs at hs with hmr
    · obtain ⟨rfl, rfl⟩ := hmr
      exact hreach
    · exact h.reach m r s hs
  · intro m r s hs
    rw [hst] at hs
    split_ifs at hs with hmr
    · obtain ⟨rfl, rfl⟩ := hmr
      cases hs
      exact hsound
    · exact h.sound m r s hs
  · intro r m hm
    rw [hreachEq]
    rcases (hnodes r m).mp hm with hm | ⟨rfl, rfl⟩
    · exact h.nodes_reach r m hm
    · exact hreach
  · intro m r s hs
    rw [hst] at hs
    rw [hnodes]
    split_ifs at hs with hmr
    · exact .inr hmr.symm
    · exact .inl (h.nodes_mem m r s hs)
  · intro r hr m hm
    rw [hreachEq] at hm
    exact (hnodes r m).mpr (Or.inl (h.dead_nodes r hr m hm))
  · intro r l hl m
    obtain ⟨hl, hin⟩ := hclosure r l hl
    rw [h.closure r l hl m, hnodes]
    constructor
    · rintro (hm | hm)
      · exact .inl hm
      · exact .inr (Or.inl hm)
    · rintro (hm | hm | ⟨hr, hm⟩)
      · exact .inl hm
      · exact .inr hm
      · refine .inr ?_
        rw [hr, hm]
        exact hin hr
  · intro m hm hlive
    have hmn : m ≠ n := fun hmn => hm (hmn ▸ hstale)
    have hsame : ∀ r, e'.rootStatus m r = e.rootStatus m r := by
      intro r
      rw [hst, if_neg (fun hmr => hmn hmr.1)]
    simp only [hsame] at hlive ⊢
    rw [below_congr hdents, hfrontier m hmn]
    exact h.frontier m hm hlive
  · intro m r s hm hr hs p hp
    have hmr : ¬ (m = n ∧ r = root) := by
      rintro ⟨rfl, rfl⟩
      exact hqueued.elim hr hm
    rw [hst, if_neg hmr] at hs
    rw [edge_congr hdents] at hp
    obtain ⟨s', hs', hle⟩ := h.closed m r s hm hr hs p hp
    rw [hst]
    split_ifs with hpr
    · obtain ⟨rfl, rfl⟩ := hpr
      exact ⟨status, rfl, hle.trans ((hup.resolve_left hr) s' hs')⟩
    · exact ⟨s', hs', hle⟩
  · intro r t ht
    rw [hdeps]
    exact h.dirty_known r t ht
  · intro r t ht hr
    obtain ⟨s, hs, hle⟩ := h.seeded r t ht hr
    rw [hst]
    split_ifs with hrr
    · obtain ⟨rfl, rfl⟩ := hrr
      rcases hup with hd | hup
      · exact absurd hd (h.dirty_alive _ t ht)
      · exact ⟨status, rfl, hle.trans (hup s hs)⟩
    · exact ⟨s, hs, hle⟩

theorem Indexed.bury {n root : String}
    (hdeps : e'.dependencies = e.dependencies) (hdents : e'.dependents = e.dependents)
    (hst : ∀ m r, e'.rootStatus m r = if m = n ∧ r = root then none else e.rootStatus m r)
    (hnodes : e'.dirtyNodesByRoot = e.dirtyNodesByRoot)
    (hclosure : e'.affectedClosureCache = e.affectedClosureCache)
    (hentries : ∀ r, e'.rootEntries r ≤ (e'.rootEntryCounts.get? r).getD 0)
    (hfrontier : e'.activeFrontiers = e.activeFrontiers)
    (hroot : root ∈ dead) (hstale : n ∈ stale) :
    e'.Indexed dirty dead stale queued pending := by
  have hreachEq : e'.Reach = e.Reach := reach_congr hdents
  have hnodesEq : ∀ r, e'.rootNodes r = e.rootNodes r := fun r => by rw [rootNodes, hnodes]; rfl
  have hsub : ∀ m r s, e'.rootStatus m r = some s → e.rootStatus m r = some s := by
    intro m r s hs
    rw [hst] at hs
    split_ifs at hs
    exact hs
  have hlive : ∀ m r, r ∉ dead → e'.rootStatus m r = e.rootStatus m r := by
    intro m r hr
    rw [hst, if_neg]
    rintro ⟨-, rfl⟩
    exact hr hroot
  refine ⟨fun m r s hs => h.status_dirty m r s (hsub m r s hs), ?_,
    fun m r s hs => h.sound m r s (hsub m r s hs), ?_, ?_, ?_, hentries, ?_, ?_, ?_,
    h.dirty_severe, ?_, h.dirty_alive, ?_⟩
  · intro m r s hs
    rw [hreachEq]
    exact h.reach m r s (hsub m r s hs)
  · intro r m hm
    rw [hreachEq]
    rw [hnodesEq] at hm
    exact h.nodes_reach r m hm
  · intro m r s hs
    rw [hnodesEq]
    exact h.nodes_mem m r s (hsub m r s hs)
  · intro r hr m hm
    rw [hnodesEq]
    rw [hreachEq] at hm
    exact h.dead_nodes r hr m hm
  · intro r l hl m
    rw [hclosure] at hl
    rw [hnodesEq]
    exact h.closure r l hl m
  · intro m hm hlive'
    have hmn : m ≠ n := fun hmn => hm (hmn ▸ hstale)
    have hsame : ∀ r, e'.rootStatus m r = e.rootStatus m r := by
      intro r
      rw [hst, if_neg (fun hmr => hmn hmr.1)]
    simp only [hsame] at hlive' ⊢
    rw [below_congr hdents, nodeFrontier, hfrontier]
    exact h.frontier m hm hlive'
  · intro m r s hm hr hs p hp
    rw [hlive m r hr] at hs
    rw [edge_congr hdents] at hp
    rw [hlive p r hr]
    exact h.closed m r s hm hr hs p hp
  · intro r t ht
    rw [hdeps]
    exact h.dirty_known r t ht
  · intro r t ht hr
    rw [hlive r r (h.dirty_alive r t ht)]
    exact h.seeded r t ht hr

theorem Indexed.forget {root : String}
    (hdead : e.dead = dead) (hnone : ∀ n, e.rootStatus n root = none) :
    (e.activeRootEntryCountsCleanup root).Indexed dirty (e.activeRootEntryCountsCleanup root).dead
      stale queued pending := by
  have hdead' : ∀ r, r ∈ (e.activeRootEntryCountsCleanup root).dead ↔ r ≠ root ∧ r ∈ dead := by
    intro r
    rw [← hdead]
    exact OrderedSet.mem_erase
  have hne : ∀ n r s, e.rootStatus n r = some s → r ≠ root := by
    rintro n r s hs rfl
    rw [hnone n] at hs
    cases hs
  have hnodes : ∀ r, r ≠ root → (e.activeRootEntryCountsCleanup root).rootNodes r = e.rootNodes r := by
    intro r hr
    show ((e.dirtyNodesByRoot.erase root).get? r).getD ∅ = _
    rw [OrderedMap.get?_erase_of_ne _ hr]
    rfl
  refine ⟨h.status_dirty, h.reach, ?_, ?_, ?_, ?_, ?_, ?_, ?_, ?_, h.dirty_severe, h.dirty_known, ?_, h.seeded⟩
  · intro n r s hs
    rcases h.sound n r s hs with hr | hr
    · exact .inl ((hdead' r).mpr ⟨hne n r s hs, hr⟩)
    · exact .inr hr
  · intro r n hn
    by_cases hr : r = root
    · subst hr
      have : (e.activeRootEntryCountsCleanup r).rootNodes r = ∅ := by
        show ((e.dirtyNodesByRoot.erase r).get? r).getD ∅ = _
        rw [OrderedMap.get?_erase_self]
        rfl
      rw [this] at hn
      exact absurd hn (OrderedSet.not_mem_empty n)
    · rw [hnodes r hr] at hn
      exact h.nodes_reach r n hn
  · intro n r s hs
    rw [hnodes r (hne n r s hs)]
    exact h.nodes_mem n r s hs
  · intro r hr n hn
    obtain ⟨hr, hrd⟩ := (hdead' r).mp hr
    rw [hnodes r hr]
    exact h.dead_nodes r hrd n hn
  · intro r
    show e.rootEntries r ≤ ((e.rootEntryCounts.erase root).get? r).getD 0
    by_cases hr : r = root
    · subst hr
      rw [OrderedMap.get?_erase_self]
      refine Nat.le_of_not_lt fun hlt => ?_
      obtain ⟨⟨n, roots⟩, hp, hhas⟩ := List.countP_pos_iff.mp hlt
      obtain ⟨s, hs⟩ := roots.mem_keys.mp (roots.has_eq_true.mp hhas)
      have hget := e.activeDirtyRoots.get?_eq_some_iff.mpr hp
      have := hnone n
      rw [rootStatus, hget] at this
      simp [hs] at this
    · rw [OrderedMap.get?_erase_of_ne _ hr]
      exact h.entries_le r
  · intro r l hl n
    have hl' : (e.affectedClosureCache.erase root).get? r = some l := hl
    have hr : r ≠ root := by
      rintro rfl
      rw [OrderedMap.get?_erase_self] at hl'
      cases hl'
    rw [OrderedMap.get?_erase_of_ne _ hr] at hl'
    rw [hnodes r hr]
    exact h.closure r l hl' n
  · intro n hn hlive
    refine h.frontier n hn fun r s hs hr => hlive r s hs ((hdead' r).mpr ⟨hne n r s hs, hr⟩)
  · intro n r s hn hr hs
    have hr' : r ∉ dead := fun hrd => hr ((hdead' r).mpr ⟨hne n r s hs, hrd⟩)
    exact h.closed n r s hn hr' hs
  · intro r t ht hr
    exact h.dirty_alive r t ht ((hdead' r).mp hr).2

end

theorem Indexed.store {n : String} {F : OrderedSet String}
    (h : e.Indexed dirty dead (insert n stale) queued pending)
    (hF : (∀ r s, e.rootStatus n r = some s → r ∉ dead) →
      IsFrontier e.Below {m | m ∈ F} {r | ∃ s, e.rootStatus n r = some s}) :
    ({ e with activeFrontiers := e.activeFrontiers.set n F } : IncrementalFrontierEngine).Indexed
      dirty dead stale queued pending := by
  refine ⟨h.status_dirty, h.reach, h.sound, h.nodes_reach, h.nodes_mem, h.dead_nodes, h.entries_le,
    h.closure, ?_, h.closed, h.dirty_severe, h.dirty_known, h.dirty_alive, h.seeded⟩
  intro m hm hlive
  show IsFrontier e.Below {x | x ∈ ((e.activeFrontiers.set n F).get? m).getD ∅} {r | ∃ s, e.rootStatus m r = some s}
  by_cases hmn : m = n
  · subst hmn
    rw [OrderedMap.get?_set_self]
    exact hF hlive
  · rw [OrderedMap.get?_set_of_ne _ _ hmn]
    refine h.frontier m (fun hm' => ?_) hlive
    rcases Set.mem_insert_iff.mp hm' with hm' | hm'
    · exact hmn hm'
    · exact hm hm'

theorem Indexed.discard {n : String} (h : e.Indexed dirty dead (insert n stale) queued pending)
    (hnone : ∀ r, e.rootStatus n r = none) :
    ({ e with
      activeDirtyRoots := e.activeDirtyRoots.erase n
      activeFrontiers := e.activeFrontiers.erase n } : IncrementalFrontierEngine).Indexed
      dirty dead stale queued pending := by
  have hst : ∀ m r, (((e.activeDirtyRoots.erase n).get? m).getD ∅).get? r = e.rootStatus m r := by
    intro m r
    by_cases hm : m = n
    · subst hm
      rw [OrderedMap.get?_erase_self, hnone]
      rfl
    · rw [OrderedMap.get?_erase_of_ne _ hm]
      rfl
  have hlt : ∀ r, (e.activeDirtyRoots.erase n).countWhere (fun roots => roots.has r)
      ≤ (e.rootEntryCounts.get? r).getD 0 := by
    intro r
    have herase := e.activeDirtyRoots.countWhere_erase (fun roots => roots.has r) n
    have hle := h.entries_le r
    rw [rootEntries] at hle
    omega
  have hstore := h.store (n := n) (F := ∅) (fun _ => by
    simpa [hnone] using IsFrontier.empty (r := e.Below))
  refine hstore.congr rfl rfl ?_ rfl rfl hlt ?_
  · funext m r
    exact hst m r
  · funext m
    show ((e.activeFrontiers.erase n).get? m).getD ∅ = ((e.activeFrontiers.set n ∅).get? m).getD ∅
    rw [OrderedMap.get?_erase, OrderedMap.get?_set]
    split_ifs
    · rfl
    · rfl

theorem Indexed.charged (h : e.Indexed dirty dead stale queued pending) (hch : Charged e e')
    (hok : e'.frontierBudgetExceeded = false) : e'.Indexed dirty dead stale queued pending := by
  obtain ⟨-, w, rfl⟩ := hch.within hok
  exact h.congr rfl rfl rfl rfl rfl h.entries_le rfl

/-- No active root of a node is lost or lowered. -/
structure Grows (e e' : IncrementalFrontierEngine) : Prop where
  frame : Frame e e'
  dead_sub : e'.dead ⊆ e.dead
  kept : ∀ n r s, r ∉ e.dead → e.rootStatus n r = some s →
    ∃ s', e'.rootStatus n r = some s' ∧ s.priority ≤ s'.priority

theorem Grows.refl (e : IncrementalFrontierEngine) : Grows e e :=
  ⟨Frame.refl e, subset_rfl, fun _ _ s _ hs => ⟨s, hs, le_rfl⟩⟩

theorem Grows.trans (h : Grows e e') (h' : Grows e' e'') : Grows e e'' where
  frame := h.frame.trans h'.frame
  dead_sub := h'.dead_sub.trans h.dead_sub
  kept := by
    intro n r s hr hs
    obtain ⟨s', hs', hle⟩ := h.kept n r s hr hs
    obtain ⟨s'', hs'', hle'⟩ := h'.kept n r s' (fun hr' => hr (h.dead_sub hr')) hs'
    exact ⟨s'', hs'', hle.trans hle'⟩

theorem Charged.frame (h : Charged e e') (hok : e'.frontierBudgetExceeded = false) : Frame e e' := by
  obtain ⟨-, w, rfl⟩ := h.within hok
  exact ⟨rfl, rfl, rfl, rfl, rfl, rfl, rfl, rfl⟩

theorem Charged.grows (h : Charged e e') (hok : e'.frontierBudgetExceeded = false) : Grows e e' := by
  refine ⟨h.frame hok, ?_, ?_⟩
  all_goals obtain ⟨-, w, rfl⟩ := h.within hok
  · exact subset_rfl
  · exact fun _ _ s _ hs => ⟨s, hs, le_rfl⟩

end IncrementalFrontierEngine

/-!
# Proofs: `compactResolvedRoots`

Compaction removes the tombstones of one node and recomputes its frontier from what is left. It loses
no active root of any node.
-/

variable {f : IncrementalFrontierEngine} {n : String} {s : FrontierStatus}

namespace IncrementalFrontierEngine

variable {e e' : IncrementalFrontierEngine} {dirty : String → Option FrontierStatus}
  {stale queued pending : Set String}

theorem rootStatus_of_set {roots : OrderedMap String FrontierStatus}
    (h : f.activeDirtyRoots = e.activeDirtyRoots.set n roots) (m r : String) :
    f.rootStatus m r = if m = n then roots.get? r else e.rootStatus m r := by
  rw [rootStatus, h, OrderedMap.get?_set]
  split_ifs
  · rfl
  · rfl

theorem rootStatus_of_erase (h : f.activeDirtyRoots = e.activeDirtyRoots.erase n) (m r : String) :
    f.rootStatus m r = if m = n then none else e.rootStatus m r := by
  rw [rootStatus, h, OrderedMap.get?_erase]
  split_ifs
  · rfl
  · rfl

theorem rootEntries_of_set {roots : OrderedMap String FrontierStatus}
    (h : f.activeDirtyRoots = e.activeDirtyRoots.set n roots) (r : String) :
    f.rootEntries r + (if (e.rootStatus n r).isSome then 1 else 0)
      = e.rootEntries r + (if (roots.get? r).isSome then 1 else 0) := by
  have hset := e.activeDirtyRoots.countWhere_set (fun roots => roots.has r) n roots
  have hany : (e.activeDirtyRoots.get? n).any (fun roots => roots.has r)
      = (e.rootStatus n r).isSome := by
    rw [rootStatus]
    cases e.activeDirtyRoots.get? n with
    | none | some => rfl
  rw [hany] at hset
  rw [rootEntries, rootEntries, h]
  exact hset

theorem rootEntries_pos {r : String} (h : e.rootStatus n r = some s) : 0 < e.rootEntries r := by
  rw [rootStatus] at h
  cases hn : e.activeDirtyRoots.get? n with
  | none => simp [hn] at h
  | some roots =>
    rw [hn, Option.getD_some] at h
    exact e.activeDirtyRoots.countWhere_pos _ hn (roots.has_eq_true.mpr (roots.mem_keys_of_get? h))

/-- The fields that `dropTombstone` updates before it looks whether the root has entries left. -/
def dropEntry (e : IncrementalFrontierEngine) (n root : String) (w : Nat) :
    IncrementalFrontierEngine :=
  { e with
    activeDirtyRoots :=
      e.activeDirtyRoots.set n (((e.activeDirtyRoots.get? n).getD ∅).erase root)
    rootEntryCounts := e.rootEntryCounts.set root ((e.rootEntryCounts.get? root).getD 0 - 1)
    inactiveRootEntryCounts :=
      e.inactiveRootEntryCounts.set root ((e.inactiveRootEntryCounts.get? root).getD 0 - 1)
    tombstonedRootEntries := e.tombstonedRootEntries - 1
    frontierWorkUsed := w }

theorem dropTombstone_eq {root : String} (hok : (e.dropTombstone n root).frontierBudgetExceeded = false) :
    e.frontierBudgetExceeded = false ∧ ∃ w,
      (((e.dropEntry n root w).rootEntryCounts.get? root).getD 0 = 0 ∧ e.dropTombstone n root
        = (e.dropEntry n root w).activeRootEntryCountsCleanup root) ∨
      e.dropTombstone n root = e.dropEntry n root w := by
  have hch := count_charged { e with
    activeDirtyRoots :=
      e.activeDirtyRoots.set n (((e.activeDirtyRoots.get? n).getD ∅).erase root) }
  unfold dropTombstone at hok ⊢
  dsimp only at hok ⊢
  generalize count { e with
    activeDirtyRoots :=
      e.activeDirtyRoots.set n (((e.activeDirtyRoots.get? n).getD ∅).erase root) } = e1
    at hch hok ⊢
  have hok1 : e1.frontierBudgetExceeded = false := by
    split_ifs at hok
    · exact hok
    · exact hok
  obtain ⟨hoke, w, rfl⟩ := hch.within hok1
  refine ⟨hoke, w, ?_⟩
  split_ifs with hzero
  · left
    refine ⟨?_, rfl⟩
    show ((e.rootEntryCounts.set root ((e.rootEntryCounts.get? root).getD 0 - 1)).get? root).getD 0 = 0
    rw [OrderedMap.get?_set_self]
    exact hzero.1
  · right
    rfl

/-- What compacting `n` keeps. -/
structure Compacts (n : String) (e e' : IncrementalFrontierEngine) : Prop where
  grows : Grows e e'
  others : ∀ m, m ≠ n → ∀ r, e'.rootStatus m r = e.rootStatus m r
  removed : ∀ r s, e'.rootStatus n r = some s → e.rootStatus n r = some s
  active : ∀ r, r ∉ e.dead → e'.rootStatus n r = e.rootStatus n r

theorem Compacts.refl (n : String) (e : IncrementalFrontierEngine) : Compacts n e e :=
  ⟨Grows.refl e, fun _ _ _ => rfl, fun _ _ h => h, fun _ _ => rfl⟩

theorem Compacts.trans {e e' e'' : IncrementalFrontierEngine} (h : Compacts n e e') (h' : Compacts n e' e'') :
    Compacts n e e'' where
  grows := h.grows.trans h'.grows
  others := fun m hm r => (h'.others m hm r).trans (h.others m hm r)
  removed := fun r s hs => h.removed r s (h'.removed r s hs)
  active := fun r hr =>
    (h'.active r (fun hr' => hr (h.grows.dead_sub hr'))).trans (h.active r hr)

theorem Charged.compacts (h : Charged e e') (hok : e'.frontierBudgetExceeded = false) (n : String) : Compacts n e e' := by
  refine ⟨h.grows hok, ?_, ?_, ?_⟩
  all_goals obtain ⟨-, w, rfl⟩ := h.within hok
  · exact fun _ _ _ => rfl
  · exact fun _ _ hs => hs
  · exact fun _ _ => rfl

theorem dropEntry_rootStatus (n root : String) (w : Nat) (m r : String) : (e.dropEntry n root w).rootStatus m r
      = if m = n ∧ r = root then none else e.rootStatus m r := by
  rw [rootStatus_of_set (e := e) (n := n) rfl]
  by_cases hm : m = n
  · subst hm
    rw [if_pos rfl, OrderedMap.get?_erase]
    by_cases hr : r = root
    · simp [hr]
    · rw [if_neg hr, if_neg (fun h => hr h.2)]
      rfl
  · rw [if_neg hm, if_neg (fun h => hm h.1)]

theorem dropEntry_indexed {root : String} (w : Nat) (h : e.Indexed dirty e.dead stale queued pending)
    (hs : e.rootStatus n root = some s) (hroot : root ∈ e.dead) (hstale : n ∈ stale) :
    (e.dropEntry n root w).Indexed dirty e.dead stale queued pending := by
  refine h.bury (n := n) rfl rfl (dropEntry_rootStatus n root w) rfl rfl ?_ rfl hroot hstale
  intro r
  have hent := rootEntries_of_set (e := e) (f := e.dropEntry n root w) (n := n) rfl r
  have hle := h.entries_le r
  show (e.dropEntry n root w).rootEntries r
    ≤ ((e.rootEntryCounts.set root ((e.rootEntryCounts.get? root).getD 0 - 1)).get? r).getD 0
  rw [OrderedMap.get?_erase] at hent
  by_cases hr : r = root
  · subst hr
    rw [OrderedMap.get?_set_self, Option.getD_some]
    rw [hs] at hent
    simp only [Option.isSome_some, if_true, Option.isSome_none, Bool.false_eq_true, if_false] at hent
    omega
  · rw [OrderedMap.get?_set_of_ne _ _ hr]
    rw [if_neg hr] at hent
    have : (((e.activeDirtyRoots.get? n).getD ∅).get? r) = e.rootStatus n r := rfl
    rw [this] at hent
    omega

theorem dropTombstone_spec {root : String} (h : e.Indexed dirty e.dead stale queued pending)
    (hs : e.rootStatus n root = some s) (hroot : root ∈ e.dead) (hstale : n ∈ stale)
    (hok : (e.dropTombstone n root).frontierBudgetExceeded = false) :
    e.frontierBudgetExceeded = false ∧
      (e.dropTombstone n root).Indexed dirty (e.dropTombstone n root).dead stale queued pending ∧
      Compacts n e (e.dropTombstone n root) ∧
      (∀ m r, (e.dropTombstone n root).rootStatus m r
        = if m = n ∧ r = root then none else e.rootStatus m r) := by
  obtain ⟨hoke, w, heq⟩ := dropTombstone_eq hok
  have hI := dropEntry_indexed w h hs hroot hstale
  have hst := dropEntry_rootStatus (e := e) n root w
  have hcompacts : ∀ e', e'.rootStatus = (e.dropEntry n root w).rootStatus → Frame e e' →
      e'.dead ⊆ e.dead → Compacts n e e' := by
    intro e' he' hframe hdead
    refine ⟨⟨hframe, hdead, ?_⟩, ?_, ?_, ?_⟩
    · intro m r s' hr hs'
      rw [he', hst, if_neg]
      · exact ⟨s', hs', le_rfl⟩
      · rintro ⟨-, rfl⟩
        exact hr hroot
    · intro m hm r
      rw [he', hst, if_neg (fun h => hm h.1)]
    · intro r s' hs'
      rw [he', hst] at hs'
      split_ifs at hs'
      exact hs'
    · intro r hr
      rw [he', hst, if_neg]
      rintro ⟨-, rfl⟩
      exact hr hroot
  have hframe : Frame e (e.dropEntry n root w) := ⟨rfl, rfl, rfl, rfl, rfl, rfl, rfl, rfl⟩
  refine ⟨hoke, ?_⟩
  rcases heq with ⟨hzero, heq⟩ | heq
  · rw [heq]
    have hnone : ∀ m, (e.dropEntry n root w).rootStatus m root = none := by
      intro m
      cases hm : (e.dropEntry n root w).rootStatus m root with
      | none => rfl
      | some s' =>
        have hpos := rootEntries_pos hm
        have hle := hI.entries_le root
        omega
    refine ⟨hI.forget rfl hnone, hcompacts _ rfl ?_ ?_, hst⟩
    · exact hframe.trans ⟨rfl, rfl, rfl, rfl, rfl, rfl, rfl, rfl⟩
    · exact fun r hr => (OrderedSet.mem_erase.mp hr).2
  · rw [heq]
    exact ⟨hI, hcompacts _ rfl hframe subset_rfl, hst⟩

theorem compactFrom_exceeded (list : List String) (changed : Bool) (h : e.frontierBudgetExceeded = true) :
    compactFrom n list changed e = (e, changed) := by
  cases list with
  | nil => rfl
  | cons root rest => simp [compactFrom, count_of_exceeded h, h]

theorem compactFrom_changed (list : List String) : (compactFrom n list true e).2 = true := by
  induction list generalizing e with
  | nil => rfl
  | cons root rest ih =>
    simp only [compactFrom]
    split_ifs
    · rfl
    · exact ih
    · exact ih

theorem compactFrom_spec (list : List String) (changed : Bool) (h : e.Indexed dirty e.dead stale queued pending)
    (hstale : n ∈ stale) (hnd : list.Nodup) (hmem : ∀ r ∈ list, ∃ s, e.rootStatus n r = some s)
    (hok : (compactFrom n list changed e).1.frontierBudgetExceeded = false) :
    e.frontierBudgetExceeded = false ∧
      (compactFrom n list changed e).1.Indexed dirty (compactFrom n list changed e).1.dead stale queued pending ∧
      Compacts n e (compactFrom n list changed e).1 ∧
      (∀ r ∈ list, ∀ s, (compactFrom n list changed e).1.rootStatus n r = some s →
        r ∉ (compactFrom n list changed e).1.dead) ∧
      ((compactFrom n list changed e).2 = false →
        Charged e (compactFrom n list changed e).1) := by
  induction list generalizing e changed with
  | nil =>
    exact ⟨hok, h, Compacts.refl n e, by simp, fun _ => Charged.refl e⟩
  | cons root rest ih =>
    rw [List.nodup_cons] at hnd
    have hch := count_charged e
    simp only [compactFrom] at hok ⊢
    by_cases hex : e.count.frontierBudgetExceeded = true
    · rw [if_pos hex] at hok
      simp [hex] at hok
    · rw [if_neg hex] at hok ⊢
      have hok1 : e.count.frontierBudgetExceeded = false := by simpa using hex
      have hcomp1 := hch.compacts hok1 n
      have hI1 := h.charged hch hok1
      obtain ⟨hoke, w, heq⟩ := hch.within hok1
      have hdead : e.count.dead = e.dead := by rw [heq]; rfl
      have hst1 : e.count.rootStatus = e.rootStatus := by rw [heq]; rfl
      rw [← hdead] at hI1
      obtain ⟨s, hs⟩ := hmem root (List.mem_cons_self ..)
      by_cases hroot : root ∈ e.count.inactiveDirtyRoots
      · rw [if_pos hroot] at hok ⊢
        have hok2 : (e.count.dropTombstone n root).frontierBudgetExceeded = false := by
          rw [Bool.eq_false_iff]
          intro hex2
          rw [compactFrom_exceeded rest true hex2, hex2] at hok
          cases hok
        obtain ⟨-, hI2, hcomp2, hst2⟩ := dropTombstone_spec hI1 (by rw [hst1]; exact hs) hroot hstale
          hok2
        obtain ⟨-, hI3, hcomp3, hdone, hflag⟩ := ih true hI2 hnd.2 (by
          intro r hr
          rw [hst2, if_neg, hst1]
          · exact hmem r (List.mem_cons_of_mem _ hr)
          · rintro ⟨-, rfl⟩
            exact hnd.1 hr) hok
        refine ⟨hoke, hI3, hcomp1.trans (hcomp2.trans hcomp3), ?_, ?_⟩
        · intro r hr s' hs'
          rcases List.mem_cons.mp hr with rfl | hr
          · have := hcomp3.removed r s' hs'
            rw [hst2, if_pos ⟨rfl, rfl⟩] at this
            cases this
          · exact hdone r hr s' hs'
        · intro hfalse
          rw [compactFrom_changed] at hfalse
          cases hfalse
      · rw [if_neg hroot] at hok ⊢
        obtain ⟨-, hI2, hcomp2, hdone, hflag⟩ := ih changed hI1 hnd.2 (by
          intro r hr
          rw [hst1]
          exact hmem r (List.mem_cons_of_mem _ hr)) hok
        refine ⟨hoke, hI2, hcomp1.trans hcomp2, ?_, fun hfalse => hch.trans (hflag hfalse)⟩
        intro r hr s' hs'
        rcases List.mem_cons.mp hr with rfl | hr
        · exact fun hr' => hroot (hcomp2.grows.dead_sub hr')
        · exact hdone r hr s' hs'

theorem compactResolvedRoots_spec (n : String) (hg : e.GraphInv)
    (h : e.Indexed dirty e.dead stale queued pending)
    (hok : (e.compactResolvedRoots n).1.frontierBudgetExceeded = false) :
    e.frontierBudgetExceeded = false ∧
      (e.compactResolvedRoots n).1.Indexed dirty (e.compactResolvedRoots n).1.dead stale queued pending ∧
      Compacts n e (e.compactResolvedRoots n).1 ∧
      (∀ r s, (e.compactResolvedRoots n).1.rootStatus n r = some s →
        r ∉ (e.compactResolvedRoots n).1.dead) := by
  unfold compactResolvedRoots at hok ⊢
  cases hn : e.activeDirtyRoots.get? n with
  | none =>
    rw [hn] at hok
    refine ⟨hok, h, Compacts.refl n e, ?_⟩
    intro r s hs
    rw [rootStatus, hn] at hs
    simp at hs
  | some roots =>
    rw [hn] at hok
    dsimp only at hok ⊢
    have hroots : ∀ r, roots.get? r = e.rootStatus n r := by
      intro r
      rw [rootStatus, hn]
      rfl
    by_cases hsize : e.inactiveDirtyRoots.size = 0
    · rw [if_pos hsize] at hok ⊢
      exact ⟨hok, h, Compacts.refl n e, fun r _ _ => (OrderedSet.size_eq_zero _).mp hsize r⟩
    · rw [if_neg hsize] at hok ⊢
      have hspec := compactFrom_spec (e := e) (n := n) roots.keys false
        (h.mono (Set.subset_insert n stale) subset_rfl subset_rfl) (Set.mem_insert n stale)
        roots.keys_nodup (fun r hr => by
          obtain ⟨s, hs⟩ := roots.mem_keys.mp hr
          exact ⟨s, (hroots r).symm.trans hs⟩)
      generalize compactFrom n roots.keys false e = p at hspec hok ⊢
      obtain ⟨e1, changed⟩ := p
      -- every root that `n` still has was in the list
      have hclean : e1.frontierBudgetExceeded = false → ∀ r s, e1.rootStatus n r = some s → r ∉ e1.dead := by
        intro hok1 r s hs
        obtain ⟨-, -, hcomp, hdone, -⟩ := hspec hok1
        refine hdone r (roots.mem_keys.mpr ⟨s, ?_⟩) s hs
        rw [hroots]
        exact hcomp.removed r s hs
      by_cases hstop : (!changed || e1.frontierBudgetExceeded) = true
      · rw [if_pos hstop] at hok ⊢
        obtain ⟨hoke, hI, hcomp, hdone, hflag⟩ := hspec hok
        have hchanged : changed = false := by
          dsimp only at hok
          simpa [hok] using hstop
        have hch := hflag hchanged
        refine ⟨hoke, ?_, hcomp, hclean hok⟩
        have hI' := h.charged hch hok
        obtain ⟨-, w, rfl⟩ := hch.within hok
        exact hI'
      · rw [if_neg hstop] at hok ⊢
        have hok1 : e1.frontierBudgetExceeded = false := by
          cases hx : e1.frontierBudgetExceeded with
          | false => rfl
          | true => simp [hx] at hstop
        obtain ⟨hoke, hI, hcomp, hdone, -⟩ := hspec hok1
        refine ⟨hoke, ?_⟩
        by_cases hzero : ((e1.activeDirtyRoots.get? n).getD ∅).size = 0
        · rw [if_pos hzero] at hok ⊢
          have hnone : ∀ r, e1.rootStatus n r = none := (OrderedMap.size_eq_zero _).mp hzero
          have hst := rootStatus_of_erase (e := e1) (n := n) (f := { e1 with
            activeDirtyRoots := e1.activeDirtyRoots.erase n
            activeFrontiers := e1.activeFrontiers.erase n }) rfl
          have hsame : ∀ m r, ({ e1 with
              activeDirtyRoots := e1.activeDirtyRoots.erase n
              activeFrontiers := e1.activeFrontiers.erase n } :
                IncrementalFrontierEngine).rootStatus m r = e1.rootStatus m r := by
            intro m r
            rw [hst]
            split_ifs with hm
            · rw [hm, hnone]
            · rfl
          refine ⟨hI.discard hnone, hcomp.trans ⟨⟨⟨rfl, rfl, rfl, rfl, rfl, rfl, rfl, rfl⟩,
            subset_rfl, ?_⟩, ?_, ?_, ?_⟩, ?_⟩
          · exact fun m r s _ hs => ⟨s, (hsame m r).trans hs, le_rfl⟩
          · exact fun m _ r => hsame m r
          · exact fun r s hs => (hsame n r).symm.trans hs
          · exact fun r _ => hsame n r
          · exact fun r s hs => hclean hok1 r s ((hsame n r).symm.trans hs)
        · rw [if_neg hzero] at hok ⊢
          obtain ⟨-, w, F, heq, hF⟩ := refreshFrontier_spec (hcomp.grows.frame.graphInv hg) n _ hok
          rw [heq]
          refine ⟨?_, hcomp.trans ⟨⟨⟨rfl, rfl, rfl, rfl, rfl, rfl, rfl, rfl⟩, subset_rfl,
            fun _ _ s _ hs => ⟨s, hs, le_rfl⟩⟩, fun _ _ _ => rfl, fun _ _ hs => hs,
            fun _ _ => rfl⟩, hclean hok1⟩
          have hstore := hI.store (n := n) (F := F) (fun hlive => by
            have hset : {r | r ∈ ((e1.activeDirtyRoots.get? n).getD ∅).keys
                ∧ r ∉ e1.inactiveDirtyRoots} = {r | ∃ s, e1.rootStatus n r = some s} := by
              ext r
              constructor
              · rintro ⟨hr, -⟩
                exact (OrderedMap.mem_keys _).mp hr
              · rintro ⟨s, hs⟩
                exact ⟨(OrderedMap.mem_keys _).mpr ⟨s, hs⟩, hlive r s hs⟩
            rwa [hset] at hF)
          exact hstore.charged (charged_work _ w) hok1

end IncrementalFrontierEngine

end Premise.FrontierEngine
