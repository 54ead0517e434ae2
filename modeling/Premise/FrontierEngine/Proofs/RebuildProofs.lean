import Premise.FrontierEngine.Proofs.PropagateProofs

/-!
# Proofs: `reactivateRoot`

A tombstoned root that becomes dirty again is set at every node that still remembers it, whatever
severity its tombstones had. While the loop runs, the root counts as tombstoned: its entries are a mix
of old and new severities.
-/

namespace Premise.FrontierEngine

open Collections Premise.Graph Relation

namespace IncrementalFrontierEngine

variable {e e' : IncrementalFrontierEngine} {dirty : String → Option FrontierStatus}
  {dead pending : Set String} {root : String} {status : FrontierStatus}

/-- The node has the root at the new severity, and its frontier is right. -/
def Reactivated (e : IncrementalFrontierEngine) (root : String) (status : FrontierStatus)
    (m : String) : Prop :=
  e.rootStatus m root = some status ∧
    ((∀ r s, e.rootStatus m r = some s → r ∉ e.dead) →
      IsFrontier e.Below {x | x ∈ e.nodeFrontier m} {r | ∃ s, e.rootStatus m r = some s})

/-- The invariant of `reactivateNodes`, started in `e₀`; `rest` are the nodes still to come. -/
structure ReactInv (e₀ : IncrementalFrontierEngine) (dirty : String → Option FrontierStatus)
    (dead pending : Set String) (root : String) (status : FrontierStatus) (rest : List String)
    (e : IncrementalFrontierEngine) : Prop where
  frame : Frame e₀ e
  inactive : e.inactiveDirtyRoots = e₀.inactiveDirtyRoots
  nodes : e.dirtyNodesByRoot = e₀.dirtyNodesByRoot
  indexed : e.Indexed dirty dead ∅ ∅ pending
  others : ∀ m r, r ≠ root → e.rootStatus m r = e₀.rootStatus m r
  done : ∀ m ∈ e₀.rootNodes root, m ∉ rest → e.Reactivated root status m

theorem reactivate_raise {m : String} {counts : OrderedMap String Nat} {w : Nat}
    (h : e.Indexed dirty dead ∅ ∅ pending) (hroot : root ∈ dead) (hm : m ∈ e.rootNodes root)
    (hsevere : status ≠ .fresh)
    (hcounts : ∀ r, (e.rootEntryCounts.get? r).getD 0
      + (if r = root ∧ e.rootStatus m root = none then 1 else 0) ≤ (counts.get? r).getD 0) :
    ({ e with
      activeDirtyRoots :=
        e.activeDirtyRoots.set m (((e.activeDirtyRoots.get? m).getD ∅).set root status)
      rootEntryCounts := counts
      frontierWorkUsed := w } : IncrementalFrontierEngine).Indexed dirty dead (insert m ∅) ∅
        pending := by
  have h' : e.Indexed dirty dead (insert m ∅) ∅ pending :=
    h.mono (Set.empty_subset _) subset_rfl subset_rfl
  have hst : ∀ x r, (((e.activeDirtyRoots.set m
      (((e.activeDirtyRoots.get? m).getD ∅).set root status)).get? x).getD ∅).get? r
      = if x = m ∧ r = root then some status else e.rootStatus x r := by
    intro x r
    by_cases hx : x = m
    · subst hx
      rw [OrderedMap.get?_set_self, Option.getD_some, OrderedMap.get?_set]
      by_cases hr : r = root
      · simp [hr]
      · simp only [hr, if_false, and_false]
        rfl
    · rw [OrderedMap.get?_set_of_ne _ _ hx, if_neg (fun h => hx h.1)]
      rfl
  refine h'.raise (n := m) rfl rfl hst ?_
    (fun r l hl => ⟨hl, fun _ => hm⟩) ?_ (fun _ _ => rfl) hsevere (h.nodes_reach root m hm)
    (Or.inl hroot) (Or.inl hroot) (Set.mem_insert m ∅) (Or.inl hroot)
  · intro r x
    constructor
    · exact fun hx => Or.inl hx
    · rintro (hx | ⟨rfl, rfl⟩)
      · exact hx
      · exact hm
  · intro r
    have hent := rootEntries_of_set (e := e) (n := m) (f := { e with
      activeDirtyRoots :=
        e.activeDirtyRoots.set m (((e.activeDirtyRoots.get? m).getD ∅).set root status)
      rootEntryCounts := counts
      frontierWorkUsed := w }) rfl r
    have hle := h.entries_le r
    have hc := hcounts r
    rw [OrderedMap.get?_set] at hent
    dsimp only
    by_cases hr : r = root
    · subst hr
      simp only [true_and] at hc
      cases hget : e.rootStatus m r with
      | none =>
        rw [hget] at hent hc
        simp only [if_true, Option.isSome_none, Option.isSome_some, Bool.false_eq_true, if_false]
          at hent hc
        omega
      | some s =>
        rw [hget] at hent hc
        simp only [Option.isSome_some, if_true, reduceCtorEq, if_false] at hent hc
        omega
    · have hsame : ((e.activeDirtyRoots.get? m).getD ∅).get? r = e.rootStatus m r := rfl
      simp only [hr, if_false, hsame, false_and] at hent hc
      omega

theorem reactivateNodes_exceeded (rest : List String) (h : e.frontierBudgetExceeded = true) :
    reactivateNodes root status rest e = e := by
  cases rest with
  | nil => rfl
  | cons m rest => simp [reactivateNodes, h]

theorem countReactivated_spec (m : String) :
    (e.countReactivated root status ((e.activeDirtyRoots.get? m).getD ∅)).dependencies = e.dependencies ∧
      (e.countReactivated root status ((e.activeDirtyRoots.get? m).getD ∅)).dependents = e.dependents ∧
      ((e.countReactivated root status ((e.activeDirtyRoots.get? m).getD ∅)).frontierBudgetExceeded = false → ∃ w counts,
        e.countReactivated root status ((e.activeDirtyRoots.get? m).getD ∅)
          = { e with rootEntryCounts := counts, frontierWorkUsed := w } ∧
        ∀ x, (e.rootEntryCounts.get? x).getD 0
          + (if x = root ∧ e.rootStatus m root = none then 1 else 0) ≤ (counts.get? x).getD 0) := by
  have hst : ((e.activeDirtyRoots.get? m).getD ∅).get? root = e.rootStatus m root := rfl
  unfold countReactivated
  rw [hst]
  cases hget : e.rootStatus m root with
  | none =>
    have hch := count_charged { e with
      rootEntryCounts := e.rootEntryCounts.set root ((e.rootEntryCounts.get? root).getD 0 + 1) }
    refine ⟨hch.dependencies, hch.dependents, fun hok => ?_⟩
    obtain ⟨-, w, hw⟩ := hch.within hok
    refine ⟨w, _, hw, fun x => ?_⟩
    rw [OrderedMap.get?_set]
    by_cases hx : x = root
    · simp [hx]
    · simp [hx]
  | some previous =>
    have hch : Charged e (if previous = status then e else e.count) := by
      split_ifs
      · exact Charged.refl e
      · exact count_charged e
    refine ⟨hch.dependencies, hch.dependents, fun hok => ?_⟩
    obtain ⟨-, w, hw⟩ := hch.within hok
    exact ⟨w, e.rootEntryCounts, hw, fun x => by simp⟩

theorem reactivateNodes_spec {e₀ : IncrementalFrontierEngine} (hg : e₀.GraphInv)
    (hroot : root ∈ dead) (hsevere : status ≠ .fresh) (rest : List String) (hnd : rest.Nodup)
    (hsub : ∀ m ∈ rest, m ∈ e₀.rootNodes root)
    (h : ReactInv e₀ dirty dead pending root status rest e)
    (hok : (reactivateNodes root status rest e).frontierBudgetExceeded = false) :
    e.frontierBudgetExceeded = false ∧
      ReactInv e₀ dirty dead pending root status [] (reactivateNodes root status rest e) := by
  induction rest generalizing e with
  | nil => exact ⟨hok, h⟩
  | cons m rest ih =>
    simp only [reactivateNodes] at hok ⊢
    by_cases hex : e.frontierBudgetExceeded = true
    · rw [if_pos hex] at hok
      rw [hex] at hok
      cases hok
    rw [if_neg hex] at hok ⊢
    have hoke : e.frontierBudgetExceeded = false := by simpa using hex
    refine ⟨hoke, ?_⟩
    rw [List.nodup_cons] at hnd
    obtain ⟨hdeps, hdents, hcount⟩ := countReactivated_spec (e := e) m
    generalize e.countReactivated root status ((e.activeDirtyRoots.get? m).getD ∅) = e1
      at hdeps hdents hcount hok ⊢
    have hg2 : ({ e1 with
        activeDirtyRoots := e1.activeDirtyRoots.set m
          (((e.activeDirtyRoots.get? m).getD ∅).set root status) } :
            IncrementalFrontierEngine).GraphInv := by
      refine hg.congr ?_ ?_
      · exact hdeps.trans h.frame.dependencies
      · exact hdents.trans h.frame.dependents
    have hrefresh := refreshFrontier_spec hg2 m (((e.activeDirtyRoots.get? m).getD ∅).set root status).keys (by
        rw [Bool.eq_false_iff]
        intro hx
        rw [reactivateNodes_exceeded rest hx, hx] at hok
        cases hok)
    obtain ⟨hok1, w, F, heq, hF⟩ := hrefresh
    rw [heq] at hok ⊢
    obtain ⟨w₁, counts, rfl, hcounts⟩ := hcount hok1
    have hm : m ∈ e.rootNodes root := by
      have := hsub m (List.mem_cons_self ..)
      rw [rootNodes, h.nodes]
      exact this
    have hI := (reactivate_raise (w := w) h.indexed hroot hm hsevere hcounts).store (n := m) (F := F) (fun hclean => by
        refine absurd hroot (hclean root status ?_)
        show (((e.activeDirtyRoots.set m _).get? m).getD ∅).get? root = some status
        rw [OrderedMap.get?_set_self, Option.getD_some, OrderedMap.get?_set_self])
    have hst : ∀ x r, (((e.activeDirtyRoots.set m
        (((e.activeDirtyRoots.get? m).getD ∅).set root status)).get? x).getD ∅).get? r
        = if x = m ∧ r = root then some status else e.rootStatus x r := by
      intro x r
      by_cases hx : x = m
      · subst hx
        rw [OrderedMap.get?_set_self, Option.getD_some, OrderedMap.get?_set]
        by_cases hr : r = root
        · simp [hr]
        · simp only [hr, if_false, and_false]
          rfl
      · rw [OrderedMap.get?_set_of_ne _ _ hx, if_neg (fun h => hx h.1)]
        rfl
    refine (ih hnd.2 (fun x hx => hsub x (List.mem_cons_of_mem _ hx)) ?_ hok).2
    refine ⟨h.frame.trans ⟨rfl, rfl, rfl, rfl, rfl, rfl, rfl, rfl⟩, h.inactive, h.nodes, hI, ?_, ?_⟩
    · intro x r hr
      refine (hst x r).trans ?_
      rw [if_neg (fun hxr => hr hxr.2)]
      exact h.others x r hr
    · intro x hx hrest
      by_cases hxm : x = m
      · subst hxm
        refine ⟨(hst x root).trans (if_pos ⟨rfl, rfl⟩), fun hclean => ?_⟩
        have hset : {r | r ∈ (((e.activeDirtyRoots.get? x).getD ∅).set root status).keys ∧
            r ∉ e.inactiveDirtyRoots} = {r | ∃ s, (((e.activeDirtyRoots.set x
              (((e.activeDirtyRoots.get? x).getD ∅).set root status)).get? x).getD ∅).get? r
                = some s} := by
          ext r
          rw [OrderedMap.get?_set_self, Option.getD_some]
          constructor
          · rintro ⟨hr, -⟩
            exact (OrderedMap.mem_keys _).mp hr
          · rintro ⟨s, hs⟩
            refine ⟨(OrderedMap.mem_keys _).mpr ⟨s, hs⟩, hclean r s ?_⟩
            show (((e.activeDirtyRoots.set x _).get? x).getD ∅).get? r = some s
            rw [OrderedMap.get?_set_self, Option.getD_some]
            exact hs
        show IsFrontier e.Below {y | y ∈ ((e.activeFrontiers.set x F).get? x).getD ∅} _
        rw [OrderedMap.get?_set_self]
        rw [hset] at hF
        exact hF
      · have hold := h.done x hx (by simp [hxm, hrest])
        have hsame : ∀ r, (((e.activeDirtyRoots.set m
            (((e.activeDirtyRoots.get? m).getD ∅).set root status)).get? x).getD ∅).get? r
            = e.rootStatus x r := fun r => by rw [hst, if_neg (fun h => hxm h.1)]
        refine ⟨(hsame root).trans hold.1, fun hclean => ?_⟩
        have hfr := hold.2 (fun r s hs => hclean r s ((hsame r).trans hs))
        show IsFrontier e.Below {y | y ∈ ((e.activeFrontiers.set m F).get? x).getD ∅}
          {r | ∃ s, (((e.activeDirtyRoots.set m _).get? x).getD ∅).get? r = some s}
        rw [OrderedMap.get?_set_of_ne _ _ hxm]
        simp only [hsame]
        exact hfr

theorem ReactInv.finish {e₀ : IncrementalFrontierEngine} (hroot : root ∈ dead)
    (hdead : ∀ r, r ∈ e₀.dead ↔ r ≠ root ∧ r ∈ dead) (hsevere : status ≠ .fresh)
    (hknown : root ∈ e.dependencies.keys)
    (hdirty : ∀ r, e₀.directDirty.get? r = if r = root then some status else dirty r)
    (h : ReactInv e₀ dirty dead pending root status [] e) :
    e.Propagating ∅ (insert root pending) := by
  obtain ⟨hframe, hinactive, hnodes, hI, hothers, hdone⟩ := h
  have hdeadEq : e.dead = e₀.dead := by
    unfold IncrementalFrontierEngine.dead
    rw [hinactive]
  have hmem : ∀ m, m ∈ e₀.rootNodes root ↔ m ∈ e.rootNodes root := by
    intro m
    rw [rootNodes, rootNodes, hnodes]
  have hset : ∀ m s, e.rootStatus m root = some s → s = status := by
    intro m s hs
    have hm := (hmem m).mpr (hI.nodes_mem m root s hs)
    have := (hdone m hm List.not_mem_nil).1
    rw [hs] at this
    exact Option.some.inj this
  unfold Propagating
  rw [hframe.directDirty, hdeadEq]
  refine ⟨hI.status_dirty, hI.reach, ?_, hI.nodes_reach, hI.nodes_mem,
    fun r hr => hI.dead_nodes r ((hdead r).mp hr).2, hI.entries_le, hI.closure, ?_, ?_, ?_, ?_, ?_,
    ?_⟩
  · intro n r s hs
    by_cases hr : r = root
    · subst hr
      refine .inr ⟨status, by rw [hdirty, if_pos rfl], ?_⟩
      rw [hset n s hs]
    · rw [hdirty, if_neg hr]
      exact (hI.sound n r s hs).imp_left fun hd => (hdead r).mpr ⟨hr, hd⟩
  · intro n _ hclean
    by_cases hn : n ∈ e.rootNodes root
    · refine (hdone n ((hmem n).mpr hn) List.not_mem_nil).2 ?_
      rw [hdeadEq]
      exact hclean
    · refine hI.frontier n (Set.notMem_empty n) fun r s hs hd => ?_
      refine hclean r s hs ((hdead r).mpr ⟨?_, hd⟩)
      rintro rfl
      exact hn (hI.nodes_mem n r s hs)
  · intro n r s _ hr hs m hm
    by_cases hrr : r = root
    · subst hrr
      have hreach := ReflTransGen.tail (hI.reach n r s hs) hm
      have hm' := (hmem m).mpr (hI.dead_nodes r hroot m hreach)
      exact ⟨status, (hdone m hm' List.not_mem_nil).1, by rw [hset n s hs]⟩
    · exact hI.closed n r s (Set.notMem_empty n) (fun hd => hr ((hdead r).mpr ⟨hrr, hd⟩)) hs m hm
  · intro r t ht
    rw [hdirty] at ht
    split_ifs at ht with hr
    · exact (Option.some.inj ht) ▸ hsevere
    · exact hI.dirty_severe r t ht
  · intro r t ht
    rw [hdirty] at ht
    split_ifs at ht with hr
    · rw [hr]
      exact hknown
    · exact hI.dirty_known r t ht
  · intro r t ht hd
    obtain ⟨hr, hd⟩ := (hdead r).mp hd
    rw [hdirty, if_neg hr] at ht
    exact hI.dirty_alive r t ht hd
  · intro r t ht hr
    have hne : r ≠ root := fun h => hr (h ▸ Set.mem_insert root pending)
    rw [hdirty, if_neg hne] at ht
    exact hI.seeded r t ht fun hp => hr (Set.mem_insert_of_mem root hp)

theorem reactivateRoot_spec (hg : e.GraphInv) (h : e.Propagating ∅ pending) (hroot : root ∈ e.dead)
    (hknown : root ∈ e.dependencies.keys) (hsevere : status ≠ .fresh)
    (hok : (reactivateRoot { e with directDirty := e.directDirty.set root status } root
      status).frontierBudgetExceeded = false) :
    e.frontierBudgetExceeded = false ∧ Frame { e with directDirty := e.directDirty.set root status }
        (reactivateRoot { e with directDirty := e.directDirty.set root status } root status) ∧
      (reactivateRoot { e with directDirty := e.directDirty.set root status } root
        status).Propagating ∅ (insert root pending) := by
  unfold reactivateRoot at hok ⊢
  dsimp only at hok ⊢
  rw [if_pos (show root ∈ e.inactiveDirtyRoots from hroot)] at hok ⊢
  have hself : root ∈ e.rootNodes root := h.dead_nodes root hroot root ReflTransGen.refl
  cases hget : e.dirtyNodesByRoot.get? root with
  | none =>
    rw [rootNodes, hget] at hself
    exact absurd hself (OrderedSet.not_mem_empty root)
  | some affected =>
    rw [hget] at hok
    have hdead : ∀ r, r ∈ ({ e with
        directDirty := e.directDirty.set root status
        tombstonedRootEntries :=
          e.tombstonedRootEntries - (e.inactiveRootEntryCounts.get? root).getD 0
        inactiveRootEntryCounts := e.inactiveRootEntryCounts.erase root
        inactiveDirtyRoots := e.inactiveDirtyRoots.erase root } : IncrementalFrontierEngine).dead
        ↔ r ≠ root ∧ r ∈ e.dead := fun r => OrderedSet.mem_erase
    generalize hstart : ({ e with
        directDirty := e.directDirty.set root status
        tombstonedRootEntries :=
          e.tombstonedRootEntries - (e.inactiveRootEntryCounts.get? root).getD 0
        inactiveRootEntryCounts := e.inactiveRootEntryCounts.erase root
        inactiveDirtyRoots := e.inactiveDirtyRoots.erase root } : IncrementalFrontierEngine) = e₀
      at hdead hok ⊢
    have hframe : Frame { e with directDirty := e.directDirty.set root status } e₀ := by
      rw [← hstart]
      exact ⟨rfl, rfl, rfl, rfl, rfl, rfl, rfl, rfl⟩
    have hdeps : e₀.dependencies = e.dependencies := hframe.dependencies
    have hnodes : e₀.rootNodes root = affected := by
      rw [← hstart]
      show (e.dirtyNodesByRoot.get? root).getD ∅ = affected
      rw [hget]
      rfl
    have hinit : ReactInv e₀ e.directDirty.get? e.dead pending root status affected.elems e₀ := by
      refine ⟨Frame.refl e₀, rfl, rfl, ?_, fun _ _ _ => rfl, ?_⟩
      · rw [← hstart]
        exact h.congr rfl rfl rfl rfl rfl h.entries_le rfl
      · intro m hm hrest
        rw [hnodes] at hm
        exact absurd hm hrest
    have hbefore : e₀.frontierBudgetExceeded = e.frontierBudgetExceeded := by
      rw [← hstart]
    obtain ⟨hok0, hinv⟩ := reactivateNodes_spec (hg.congr hdeps hframe.dependents) hroot hsevere
      affected.elems affected.nodup (fun m hm => hnodes ▸ hm) hinit hok
    refine ⟨hbefore ▸ hok0, hframe.trans hinv.frame, hinv.finish hroot hdead hsevere ?_ (fun r => ?_)⟩
    · rw [hinv.frame.dependencies, hdeps]
      exact hknown
    · rw [hframe.directDirty]
      exact OrderedMap.get?_set _ _ _ _

end IncrementalFrontierEngine

/-!
# Proofs: direct roots, rebuilding, and the answers kept in the cache
-/

open Control Js

namespace IncrementalFrontierEngine

variable {e e' : IncrementalFrontierEngine} {status : FrontierStatus} {pending : Set String}

/-- Direct roots that propagation accepts: known nodes with a severity. -/
def DirectOk (e : IncrementalFrontierEngine) : Prop :=
  ∀ r t, e.directDirty.get? r = some t → t ≠ .fresh ∧ r ∈ e.dependencies.keys

theorem Indexed.directOk {dead stale queued : Set String}
    (h : e.Indexed e.directDirty.get? dead stale queued pending) : e.DirectOk :=
  fun r t ht => ⟨h.dirty_severe r t ht, h.dirty_known r t ht⟩

theorem rebuildDirtyState_spec (hg : e.GraphInv) (hdirect : e.DirectOk)
    (hok : e.rebuildDirtyState.frontierBudgetExceeded = false) :
    e.frontierBudgetExceeded = false ∧ Frame e e.rebuildDirtyState ∧
      e.rebuildDirtyState.Propagating ∅ ∅ := by
  unfold rebuildDirtyState at hok ⊢
  dsimp only at hok ⊢
  generalize he0 : e.clearIndexes = e₀ at hok ⊢
  have hframe : Frame e e₀ := by
    rw [← he0]
    exact ⟨rfl, rfl, rfl, rfl, rfl, rfl, rfl, rfl⟩
  have hbefore : e₀.frontierBudgetExceeded = e.frontierBudgetExceeded := by
    rw [← he0]
    rfl
  have hg0 := hframe.graphInv hg
  have hst : ∀ n r, e₀.rootStatus n r = none := by
    rw [← he0]
    exact fun _ _ => rfl
  have hnodes : ∀ r n, n ∉ e₀.rootNodes r := by
    rw [← he0]
    exact fun _ n => OrderedSet.not_mem_empty n
  have hempty : e₀.Propagating ∅ {x | ∃ p ∈ e.directDirty.entries, p.1 = x} := by
    refine ⟨?_, ?_, ?_, ?_, ?_, ?_, ?_, ?_, ?_, ?_, ?_, ?_, ?_, ?_⟩
    · intro n r s hs
      rw [hst] at hs
      cases hs
    · intro n r s hs
      rw [hst] at hs
      cases hs
    · intro n r s hs
      rw [hst] at hs
      cases hs
    · exact fun r n hn => absurd hn (hnodes r n)
    · intro n r s hs
      rw [hst] at hs
      cases hs
    · intro r hr
      rw [← he0] at hr
      exact absurd hr (OrderedSet.not_mem_empty r)
    · intro r
      rw [← he0]
      exact Nat.zero_le _
    · intro r l hl
      rw [← he0] at hl
      cases hl
    · intro n _ _
      have hset : {r | ∃ s, e₀.rootStatus n r = some s} = ∅ := by
        ext r
        simp [hst]
      have hfr : {m | m ∈ e₀.nodeFrontier n} = ∅ := by
        rw [← he0]
        ext m
        exact ⟨fun hm => absurd hm (OrderedSet.not_mem_empty m), fun hm => absurd hm (Set.notMem_empty m)⟩
      rw [hset, hfr]
      exact IsFrontier.empty
    · intro n r s _ _ hs
      rw [hst] at hs
      cases hs
    · intro r t ht
      rw [hframe.directDirty] at ht
      exact (hdirect r t ht).1
    · intro r t ht
      rw [hframe.directDirty] at ht
      rw [hframe.dependencies]
      exact (hdirect r t ht).2
    · intro r t _ hd
      rw [← he0] at hd
      exact absurd hd (OrderedSet.not_mem_empty r)
    · intro r t ht hp
      rw [hframe.directDirty] at ht
      exact absurd ⟨(r, t), e.directDirty.get?_eq_some_iff.mp ht, rfl⟩ hp
  rw [hframe.directDirty] at hok ⊢
  by_cases hsize : e.directDirty.size > 0
  · rw [if_pos hsize] at hok ⊢
    obtain ⟨hok0, hgrows, hprop, -⟩ := propagateDirty_spec hg0 e.directDirty.entries hempty
      (fun p hp => by
        rw [hframe.directDirty]
        exact e.directDirty.get?_eq_some_iff.mpr hp) hok
    exact ⟨hbefore ▸ hok0, hframe.trans hgrows.frame, hprop⟩
  · rw [if_neg hsize] at hok ⊢
    refine ⟨hbefore ▸ hok, hframe, ?_⟩
    have hnil : {x | ∃ p ∈ e.directDirty.entries, p.1 = x} = ∅ := by
      have : e.directDirty.entries = [] := List.length_eq_zero_iff.mp (Nat.le_zero.mp (Nat.le_of_not_lt hsize))
      ext x
      simp [this]
    rwa [hnil] at hempty

theorem weightOutside_addAll (g : Adjacency) (l : List String) (seen : OrderedSet String)
    (hnd : l.Nodup) (hkeys : ∀ x ∈ l, x ∈ g.keys) (hnew : ∀ x ∈ l, x ∉ seen) :
    g.weightOutside (fun n => decide (n ∈ seen.addAll l)) (fun _ => 1) + l.length
      = g.weightOutside (fun n => decide (n ∈ seen)) (fun _ => 1) := by
  induction l generalizing seen with
  | nil => rfl
  | cons a l ih =>
    rw [List.nodup_cons] at hnd
    have hrest := ih (seen.add a) hnd.2 (fun x hx => hkeys x (List.mem_cons_of_mem _ hx)) (by
      intro x hx hmem
      rcases OrderedSet.mem_add.mp hmem with rfl | hmem
      · exact hnd.1 hx
      · exact hnew x (List.mem_cons_of_mem _ hx) hmem)
    have hone := g.weightOutside_insert (p := fun n => decide (n ∈ seen))
      (q := fun n => decide (n ∈ seen.add a)) (fun _ => 1) (k := a)
      (by simp [hnew a (List.mem_cons_self ..)]) (fun x => by simp [Bool.or_comm])
    obtain ⟨deps, hdeps⟩ := g.mem_keys.mp (hkeys a (List.mem_cons_self ..))
    rw [hdeps] at hone
    simp only [Option.map_some, Option.getD_some] at hone
    have hfold : seen.addAll (a :: l) = (seen.add a).addAll l := rfl
    rw [hfold, List.length_cons]
    omega

theorem mem_descendantClosure (hg : e.GraphInv) {start : String} (x : String) :
    x ∈ e.descendantClosure start ↔ e.Reach start x := by
  obtain ⟨r, hr, hpost⟩ := run_spec (descendantBody e.dependents) (fun s => s.2.length
      + e.dependencies.weightOutside (fun n => decide (n ∈ s.1)) (fun _ => 1))
    (fun s => start ∈ s.1 ∧ (∀ y ∈ s.1, e.Reach start y) ∧ (∀ y ∈ s.2, y ∈ s.1) ∧
      ∀ y ∈ s.1, y ∉ s.2 → ∀ z, e.Edge y z → z ∈ s.1)
    (fun r => ∀ y, y ∈ r ↔ e.Reach start y)
    (by
      rintro ⟨seen, queue⟩ s' ⟨h1, h2, h3, h4⟩ hb
      cases queue with
      | nil => cases hb
      | cons id queue =>
        obtain rfl := Step.again.inj hb
        dsimp only at h1 h2 h3 h4 ⊢
        have hid := h3 id (List.mem_cons_self ..)
        refine ⟨⟨?_, ?_, ?_, ?_⟩, ?_⟩
        · exact OrderedSet.mem_addAll.mpr (Or.inr h1)
        · intro y hy
          rcases OrderedSet.mem_addAll.mp hy with hy | hy
          · exact ReflTransGen.tail (h2 id hid) (List.mem_of_mem_filter hy)
          · exact h2 y hy
        · intro y hy
          rcases List.mem_append.mp hy with hy | hy
          · exact OrderedSet.mem_addAll.mpr (Or.inr (h3 y (List.mem_cons_of_mem _ hy)))
          · exact OrderedSet.mem_addAll.mpr (Or.inl hy)
        · intro y hy hq z hz
          rw [List.mem_append, not_or] at hq
          have hy' := (OrderedSet.mem_addAll.mp hy).resolve_left hq.2
          by_cases hyid : y = id
          · subst hyid
            by_cases hzs : z ∈ seen
            · exact OrderedSet.mem_addAll.mpr (Or.inr hzs)
            · exact OrderedSet.mem_addAll.mpr (Or.inl (List.mem_filter.mpr ⟨hz, by simpa using hzs⟩))
          · exact OrderedSet.mem_addAll.mpr (Or.inr (h4 y hy' (by simp [hyid, hq.1]) z hz))
        · have hw := weightOutside_addAll e.dependencies
            ((e.dependents.neighbours id).filter (fun dependent => decide (dependent ∉ seen))) seen
            ((e.dependents.neighbours_nodup id).filter _)
            (fun y hy => hg.edge_known (List.mem_of_mem_filter hy))
            (fun y hy => by simpa using (List.mem_filter.mp hy).2)
          rw [List.length_append, List.length_cons]
          omega)
    (by
      rintro ⟨seen, queue⟩ r ⟨h1, h2, h3, h4⟩ hb
      cases queue with
      | cons id queue => cases hb
      | nil =>
        obtain rfl := Step.done.inj hb
        intro y
        refine ⟨h2 y, fun hy => ?_⟩
        induction hy with
        | refl => exact h1
        | tail _ hyz ih => exact h4 _ ih List.not_mem_nil _ hyz)
    (e.dependencies.size + 2) (OrderedSet.ofList [start], [start])
    (by
      refine ⟨by simp, ?_, by simp, ?_⟩
      · intro y hy
        rw [OrderedSet.mem_ofList, List.mem_singleton] at hy
        rw [hy]
        exact ReflTransGen.refl
      · intro y hy hq
        rw [OrderedSet.mem_ofList] at hy
        exact absurd hy hq)
    (by
      have hle : e.dependencies.weightOutside
          (fun n => decide (n ∈ OrderedSet.ofList [start])) (fun _ => 1) ≤ e.dependencies.size := by
        simp only [OrderedMap.weightOutside, List.map_const', List.sum_replicate, smul_eq_mul, mul_one, OrderedMap.size]
        exact List.length_filter_le _ _
      dsimp only
      rw [List.length_singleton]
      omega)
  rw [descendantClosure, hr]
  exact hpost x

theorem NaiveAnswer.congr {n : String} {res : FrontierResult} (h : e.NaiveAnswer n res)
    (hdep : e'.DependsOn = e.DependsOn)
    (hdirect : ∀ r, ReflTransGen e.DependsOn n r → e'.directDirty.get? r = e.directDirty.get? r) :
    e'.NaiveAnswer n res := by
  have hcause : ∀ r s, e'.Cause n r s ↔ e.Cause n r s := by
    intro r s
    unfold Cause
    rw [hdep]
    constructor
    · rintro ⟨h1, h2⟩
      exact ⟨(hdirect r h2).symm.trans h1, h2⟩
    · rintro ⟨h1, h2⟩
      exact ⟨(hdirect r h2).trans h1, h2⟩
  refine ⟨?_, ?_, h.frontier_sorted, h.frontier_nodup, ?_, h.complete⟩
  · simp only [hcause]
    exact h.status_attained
  · simp only [hcause]
    exact h.status_bound
  · intro r
    rw [h.mem_frontier r, hdep]
    simp only [hcause]
    refine and_congr_right ?_
    rintro ⟨s, -, hr⟩
    refine forall_congr' fun q => ?_
    by_cases hq : TransGen e.DependsOn r q
    · have hnq : ReflTransGen e.DependsOn n q := hr.trans hq.to_reflTransGen
      rw [OrderedMap.mem_keys, OrderedMap.mem_keys, hdirect q hnq]
    · simp [hq]

theorem Settled.invalidate {targets : List String} (h : e.Settled) (hg : e'.GraphInv)
    (hindexed : e'.Propagating ∅ ∅) (htrusted : e'.trusted = true)
    (hdeps : e'.dependencies = e.dependencies)
    (hrev : e'.graphRevision = e.graphRevision) (hcache : e'.frontierCache = e.frontierCache)
    (hdirect : ∀ r, e'.directDirty.get? r = e.directDirty.get? r ∨
      ∀ n, e.Reach r n → n ∈ targets) : (e'.invalidateTargets targets).Settled := by
  have hdep : e'.DependsOn = e.DependsOn := by
    funext a b
    unfold DependsOn
    rw [hdeps]
  refine ⟨⟨hg.mirror, hg.known, hg.acyclic, hg.named⟩,
    hindexed.congr rfl rfl rfl rfl rfl hindexed.entries_le rfl, htrusted, ?_⟩
  intro n entry hentry hentryRev
  have hentry' : (targets.foldl OrderedMap.erase e'.frontierCache).get? n = some entry := hentry
  rw [OrderedMap.get?_foldl_erase (fun t : String => t), List.map_id', hcache] at hentry'
  split_ifs at hentry' with hn
  have hans := h.cached n entry hentry' (hentryRev.trans hrev)
  refine NaiveAnswer.congr hans hdep fun r hr => ?_
  rcases hdirect r with hd | hall
  · exact hd
  · exact absurd (hall n ((h.graph.dependsOn_iff_reach r n).mp hr)) hn

end IncrementalFrontierEngine

end Premise.FrontierEngine
