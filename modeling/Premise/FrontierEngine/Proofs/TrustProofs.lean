import Premise.FrontierEngine.Proofs.BudgetProofs

/-!
# Proofs: index maintenance keeps the graph, and the trust of the engine or fails closed
-/

namespace Premise.FrontierEngine

open Collections Control Js

namespace IncrementalFrontierEngine

variable {e e' e'' : IncrementalFrontierEngine}

/-- The fields that decide whether the engine answers, and with what. -/
def trustState (e : IncrementalFrontierEngine) :
    Bool × Bool × OrderedMap String FrontierCacheEntry :=
  (e.trusted, e.frontierBudgetExceeded, e.frontierCache)

/-- `e'` is as trusted as `e` and has its cache, or the budget ran out on the way. -/
def Guarded (e e' : IncrementalFrontierEngine) : Prop :=
  e'.trustState = e.trustState ∨ e'.trustState = (false, true, ∅)

theorem Guarded.trans (h : Guarded e e') (h' : Guarded e' e'') : Guarded e e'' := by
  rcases h' with h' | h'
  · rcases h with h | h
    · exact .inl (h'.trans h)
    · exact .inr (h'.trans h)
  · exact .inr h'

/-- `e'` has the graph of `e`, and its trust unless the budget ran out on the way. -/
def Maintained (e e' : IncrementalFrontierEngine) : Prop :=
  (e'.dependencies = e.dependencies ∧ e'.dependents = e.dependents) ∧ Guarded e e'

theorem Maintained.refl (e : IncrementalFrontierEngine) : Maintained e e :=
  ⟨⟨rfl, rfl⟩, Or.inl rfl⟩

theorem Maintained.trans (h : Maintained e e') (h' : Maintained e' e'') : Maintained e e'' :=
  ⟨⟨h'.1.1.trans h.1.1, h'.1.2.trans h.1.2⟩, h.2.trans h'.2⟩

theorem count_maintained (e : IncrementalFrontierEngine) : Maintained e e.count := by
  rw [count_eq]
  split_ifs
  · exact Maintained.refl e
  · exact ⟨⟨rfl, rfl⟩, Or.inr rfl⟩
  · exact ⟨⟨rfl, rfl⟩, Or.inl rfl⟩

theorem foldl_count_maintained {α : Type} (l : List α) (e : IncrementalFrontierEngine) :
    Maintained e (l.foldl (fun e _ => e.count) e) := by
  induction l generalizing e with
  | nil => exact Maintained.refl e
  | cons a l ih => exact (count_maintained e).trans (ih e.count)

theorem updateDirtyState_maintained (e : IncrementalFrontierEngine) (nodeId : String) :
    Maintained e (e.updateDirtyState nodeId) := by
  unfold updateDirtyState
  cases e.activeDirtyRoots.get? nodeId with
  | none => exact Maintained.refl e
  | some roots => exact foldl_count_maintained roots.keys e

theorem reachesEdges_maintained (target : String) (l : List String) (s : ReachState) :
    match reachesEdges target l s with
    | .again s' => Maintained s.engine s'.engine
    | .done r => Maintained s.engine r.1 := by
  induction l generalizing s with
  | nil => exact Maintained.refl s.engine
  | cons dependent l ih =>
    have hcount := count_maintained s.engine
    rw [reachesEdges]
    split_ifs
    · exact hcount
    · exact hcount
    · have := ih { s with engine := s.engine.count }
      cases hr : reachesEdges target l { s with engine := s.engine.count } with
      | again s' =>
        rw [hr] at this
        exact hcount.trans this
      | done r =>
        rw [hr] at this
        exact hcount.trans this
    · have := ih ⟨s.seen.add dependent, s.queue ++ [dependent], s.engine.count⟩
      cases hr : reachesEdges target l ⟨s.seen.add dependent, s.queue ++ [dependent], s.engine.count⟩ with
      | again s' =>
        rw [hr] at this
        exact hcount.trans this
      | done r =>
        rw [hr] at this
        exact hcount.trans this

theorem reaches_maintained (e : IncrementalFrontierEngine) (start target : String) :
    Maintained e (e.reaches start target).1 := by
  have hbody : ∀ s : ReachState, match reachesBody target s with
      | .again s' => Maintained s.engine s'.engine
      | .done r => Maintained s.engine r.1 := by
    intro s
    unfold reachesBody
    cases s.queue with
    | nil => exact Maintained.refl s.engine
    | cons id queue =>
      dsimp only
      split_ifs
      · exact count_maintained s.engine
      · have hedges := reachesEdges_maintained target (s.engine.count.dependents.neighbours id)
          ⟨s.seen, queue, s.engine.count⟩
        cases hr : reachesEdges target (s.engine.count.dependents.neighbours id) ⟨s.seen, queue, s.engine.count⟩ with
        | again s' =>
          rw [hr] at hedges
          exact (count_maintained s.engine).trans hedges
        | done r =>
          rw [hr] at hedges
          exact (count_maintained s.engine).trans hedges
  unfold reaches
  dsimp only
  generalize hs : (⟨∅, [start], e.count⟩ : ReachState) = s
  have hstart : Maintained e s.engine := by rw [← hs]; exact count_maintained e
  cases hr : run (reachesBody target) (e.count.dependencies.size + 2) s with
  | none => exact count_maintained e
  | some r =>
    refine run_some_spec (reachesBody target) (fun s => Maintained e s.engine)
      (fun r => Maintained e r.1) (fun s s' hs hb => ?_) (fun s r hs hb => ?_) _ s hstart hr
    · have := hbody s
      rw [hb] at this
      exact hs.trans this
    · have := hbody s
      rw [hb] at this
      exact hs.trans this

theorem addFrontierRootFrom_maintained (root : String) (l : List String) (frontier : OrderedSet String)
    (e : IncrementalFrontierEngine) :
    Maintained e (addFrontierRootFrom root l frontier e).1 := by
  induction l generalizing frontier e with
  | nil => exact Maintained.refl e
  | cons existing l ih =>
    rw [addFrontierRootFrom]
    have h1 := count_maintained e
    have h2 := h1.trans (reaches_maintained e.count existing root)
    have h3 := h2.trans (reaches_maintained (e.count.reaches existing root).1 root existing)
    dsimp only
    split_ifs
    · exact h1
    · exact h1
    · exact h2
    · exact h3
    · exact h3
    · exact h3.trans (ih _ _)
    · exact h3.trans (ih _ _)

theorem computeFrontierFrom_maintained (roots : List String) (result : OrderedSet String)
    (e : IncrementalFrontierEngine) : Maintained e (computeFrontierFrom roots result e).1 := by
  induction roots generalizing result e with
  | nil => exact Maintained.refl e
  | cons root roots ih =>
    rw [computeFrontierFrom]
    have hadd : Maintained e (e.addFrontierRoot result root).1 :=
      addFrontierRootFrom_maintained root result.elems result e
    generalize e.addFrontierRoot result root = p at hadd ⊢
    obtain ⟨e1, added⟩ := p
    dsimp only at hadd ⊢
    split_ifs
    · exact ih result e
    · exact hadd
    · exact hadd.trans (ih _ _)

theorem dropTombstone_maintained (e : IncrementalFrontierEngine) (nodeId root : String) :
    Maintained e (e.dropTombstone nodeId root) := by
  unfold dropTombstone
  dsimp only
  have hcount : Maintained e (count { e with
      activeDirtyRoots := e.activeDirtyRoots.set nodeId
        (((e.activeDirtyRoots.get? nodeId).getD ∅).erase root) }) := count_maintained _
  split_ifs
  · exact hcount
  · exact hcount

theorem compactFrom_maintained (nodeId : String) (l : List String) (changed : Bool)
    (e : IncrementalFrontierEngine) : Maintained e (compactFrom nodeId l changed e).1 := by
  induction l generalizing changed e with
  | nil => exact Maintained.refl e
  | cons root l ih =>
    rw [compactFrom]
    have hcount := count_maintained e
    split_ifs
    · exact hcount
    · exact hcount.trans ((dropTombstone_maintained e.count nodeId root).trans (ih _ _))
    · exact hcount.trans (ih _ _)

theorem compactResolvedRoots_maintained (e : IncrementalFrontierEngine) (nodeId : String) :
    Maintained e (e.compactResolvedRoots nodeId).1 := by
  unfold compactResolvedRoots
  cases e.activeDirtyRoots.get? nodeId with
  | none => exact Maintained.refl e
  | some roots =>
    dsimp only
    have hcompact := compactFrom_maintained nodeId roots.keys false e
    generalize compactFrom nodeId roots.keys false e = p at hcompact ⊢
    obtain ⟨e1, changed⟩ := p
    split_ifs
    · exact Maintained.refl e
    · exact hcompact
    · exact hcompact
    · have hcompute : Maintained e1 (e1.computeFrontier ((e1.activeDirtyRoots.get? nodeId).getD ∅).keys).1 :=
        computeFrontierFrom_maintained _ ∅ e1
      generalize e1.computeFrontier ((e1.activeDirtyRoots.get? nodeId).getD ∅).keys = p
        at hcompute ⊢
      obtain ⟨e2, frontier⟩ := p
      have hupdate := updateDirtyState_maintained { e2 with
        activeFrontiers := e2.activeFrontiers.set nodeId frontier } nodeId
      exact hcompact.trans (Maintained.trans hcompute hupdate)

theorem noteRoot_maintained (e : IncrementalFrontierEngine) (nodeId root : String) :
    Maintained e (e.noteRoot nodeId root) := by
  unfold noteRoot
  dsimp only
  split_ifs
  · exact count_maintained _
  · exact ⟨⟨rfl, rfl⟩, Or.inl rfl⟩

theorem mergeRoots_maintained (nodeId : String) (l : List (String × FrontierStatus))
    (roots : OrderedMap String FrontierStatus) (changed : Bool) (e : IncrementalFrontierEngine) :
    Maintained e (mergeRoots nodeId l roots changed e).1 := by
  induction l generalizing roots changed e with
  | nil => exact Maintained.refl e
  | cons p l ih =>
    obtain ⟨root, status⟩ := p
    rw [mergeRoots]
    have hcount := count_maintained e
    have hnote := hcount.trans (noteRoot_maintained e.count nodeId root)
    dsimp only
    split_ifs
    · exact ih roots changed e
    · exact hcount
    · cases roots.get? root with
      | none => exact hnote.trans (ih _ _ { e.count.noteRoot nodeId root with rootEntryCounts := _ })
      | some previous =>
        dsimp only
        split_ifs
        · exact hcount.trans (ih _ _ _)
        · exact hnote.trans (ih _ _ _)

theorem addFrontierRoots_maintained (roots : List String) (frontier : OrderedSet String)
    (e : IncrementalFrontierEngine) : Maintained e (addFrontierRoots roots frontier e).1 := by
  induction roots generalizing frontier e with
  | nil => exact Maintained.refl e
  | cons root roots ih =>
    rw [addFrontierRoots]
    have hadd : Maintained e (e.addFrontierRoot frontier root).1 :=
      addFrontierRootFrom_maintained root frontier.elems frontier e
    generalize e.addFrontierRoot frontier root = p at hadd ⊢
    obtain ⟨e1, added⟩ := p
    dsimp only at hadd ⊢
    split_ifs
    · exact ih frontier e
    · exact hadd
    · exact hadd.trans (ih _ _)

theorem mergeDirtyState_maintained (e : IncrementalFrontierEngine) (nodeId : String)
    (incoming : OrderedMap String FrontierStatus) :
    Maintained e (e.mergeDirtyState nodeId incoming).1 := by
  unfold mergeDirtyState
  have hrepair : Maintained e
      (if e.inactiveDirtyRoots.size > 0 then e.compactResolvedRoots nodeId else (e, false)).1 := by
    split_ifs
    · exact compactResolvedRoots_maintained e nodeId
    · exact Maintained.refl e
  generalize (if e.inactiveDirtyRoots.size > 0 then e.compactResolvedRoots nodeId
    else (e, false)) = p at hrepair ⊢
  obtain ⟨e1, repaired⟩ := p
  dsimp only at hrepair ⊢
  have hmerge := mergeRoots_maintained nodeId incoming.entries ((e1.activeDirtyRoots.get? nodeId).getD ∅) false e1
  generalize mergeRoots nodeId incoming.entries ((e1.activeDirtyRoots.get? nodeId).getD ∅) false e1 = p at hmerge ⊢
  obtain ⟨e2, roots, changed⟩ := p
  have hstore := count_maintained { e2 with
    activeDirtyRoots := e2.activeDirtyRoots.set nodeId roots }
  generalize count { e2 with
    activeDirtyRoots := e2.activeDirtyRoots.set nodeId roots } = e3 at hstore ⊢
  have hrefresh : Maintained e3 (if repaired = true then e3.computeFrontier roots.keys
      else (e3, (e3.activeFrontiers.get? nodeId).getD ∅)).1 := by
    split_ifs
    · exact computeFrontierFrom_maintained roots.keys ∅ e3
    · exact Maintained.refl e3
  generalize (if repaired = true then e3.computeFrontier roots.keys
    else (e3, (e3.activeFrontiers.get? nodeId).getD ∅)) = p at hrefresh ⊢
  obtain ⟨e4, frontier⟩ := p
  have hread := hrefresh.trans (count_maintained e4)
  have hadd := addFrontierRoots_maintained incoming.keys frontier e4.count
  generalize addFrontierRoots incoming.keys frontier e4.count = p at hadd ⊢
  obtain ⟨e5, added⟩ := p
  have hbefore : Maintained e e4.count := hrepair.trans (hmerge.trans (Maintained.trans hstore hread))
  split_ifs
  · exact hrepair
  · exact hrepair.trans hmerge
  · exact hbefore
  · exact hbefore.trans hadd
  · refine hbefore.trans (hadd.trans (Maintained.trans ?_ (updateDirtyState_maintained _ nodeId)))
    exact count_maintained { e5 with activeFrontiers := e5.activeFrontiers.set nodeId added }

theorem affectedOfRoot_maintained (e : IncrementalFrontierEngine) (root : String) :
    Maintained e (e.affectedOfRoot root).1 := by
  unfold affectedOfRoot
  cases e.affectedClosureCache.get? root with
  | none => exact (count_maintained e).trans (foldl_count_maintained _ e.count)
  | some nodes => exact count_maintained e

theorem collectAffected_maintained (roots : List String) (affected : OrderedSet String)
    (e : IncrementalFrontierEngine) : Maintained e (collectAffected roots affected e).1 := by
  induction roots generalizing affected e with
  | nil => exact Maintained.refl e
  | cons root roots ih => exact (affectedOfRoot_maintained e root).trans (ih _ _)

theorem cacheClosure_maintained (e : IncrementalFrontierEngine) (root : String)
    (result : List String) : Maintained e (e.cacheClosure root result) := by
  unfold cacheClosure
  split_ifs
  · cases e.affectedClosureCache.keys with
    | nil => exact count_maintained { e with
        affectedClosureCache := e.affectedClosureCache.set root result }
    | cons oldest rest =>
      have hevict := count_maintained { e with
        affectedClosureCache := e.affectedClosureCache.erase oldest }
      exact Maintained.trans hevict (count_maintained { count { e with
        affectedClosureCache := e.affectedClosureCache.erase oldest } with
          affectedClosureCache := _ })
  · exact count_maintained { e with affectedClosureCache := e.affectedClosureCache.set root result }

theorem affectedFromRoots_maintained (e : IncrementalFrontierEngine) (roots : List String) :
    Maintained e (e.affectedFromRoots roots).1 := by
  unfold affectedFromRoots
  split
  · rename_i root
    cases e.affectedClosureCache.get? root with
    | some result => exact count_maintained e
    | none =>
      have hcollect := collectAffected_maintained [root] ∅ e.count
      exact (count_maintained e).trans (hcollect.trans (cacheClosure_maintained _ root _))
  · exact collectAffected_maintained roots ∅ e

theorem propagateSeeds_maintained (seeds : List (String × FrontierStatus)) (s : PropagateState) :
    Maintained s.engine (propagateSeeds seeds s).engine := by
  induction seeds generalizing s with
  | nil => exact Maintained.refl s.engine
  | cons p seeds ih =>
    obtain ⟨id, value⟩ := p
    rw [propagateSeeds]
    split_ifs
    · exact Maintained.refl s.engine
    · have hmerge := mergeDirtyState_maintained s.engine id (OrderedMap.ofList [(id, value)])
      generalize s.engine.mergeDirtyState id (OrderedMap.ofList [(id, value)]) = p at hmerge ⊢
      obtain ⟨e1, changed⟩ := p
      have haffected := affectedFromRoots_maintained e1 [id]
      exact hmerge.trans (haffected.trans (ih ⟨_, _, (e1.affectedFromRoots [id]).1⟩))

theorem propagateEdges_maintained (roots : OrderedMap String FrontierStatus) (l : List String)
    (s : PropagateState) : Maintained s.engine (propagateEdges roots l s).engine := by
  induction l generalizing s with
  | nil => exact Maintained.refl s.engine
  | cons dependent l ih =>
    have hmerge := mergeDirtyState_maintained s.engine dependent roots
    exact hmerge.trans (ih ⟨_, _, (s.engine.mergeDirtyState dependent roots).1⟩)

theorem propagateBody_maintained (s : PropagateState) :
    match propagateBody s with
    | .again s' => Maintained s.engine s'.engine
    | .done s' => Maintained s.engine s'.engine := by
  unfold propagateBody
  cases s.queue with
  | nil => exact Maintained.refl s.engine
  | cons id queue =>
    split_ifs
    · exact Maintained.refl s.engine
    · exact propagateEdges_maintained _ _ { s with queue := queue }

theorem propagateDirty_maintained (e : IncrementalFrontierEngine)
    (seeds : List (String × FrontierStatus)) : Maintained e (e.propagateDirty seeds).1 := by
  have hseeds := propagateSeeds_maintained seeds ⟨∅, [], e⟩
  unfold propagateDirty
  dsimp only
  generalize propagateSeeds seeds ⟨∅, [], e⟩ = s at hseeds ⊢
  cases hr : run propagateBody (e.propagationRounds seeds) s with
  | none => exact hseeds
  | some s' =>
    refine run_some_spec propagateBody (fun s => Maintained e s.engine) (fun s => Maintained e s.engine)
      (fun s s' hs hb => ?_) (fun s s' hs hb => ?_) _ s hseeds hr
    · have := propagateBody_maintained s
      rw [hb] at this
      exact hs.trans this
    · have := propagateBody_maintained s
      rw [hb] at this
      exact hs.trans this

theorem rebuildDirtyState_maintained (e : IncrementalFrontierEngine) : Maintained e e.rebuildDirtyState := by
  unfold rebuildDirtyState
  dsimp only
  split_ifs
  · exact propagateDirty_maintained e.clearIndexes _
  · exact ⟨⟨rfl, rfl⟩, Or.inl rfl⟩

theorem countReactivated_maintained (e : IncrementalFrontierEngine) (root : String)
    (status : FrontierStatus) (roots : OrderedMap String FrontierStatus) :
    Maintained e (e.countReactivated root status roots) := by
  unfold countReactivated
  cases roots.get? root with
  | none => exact count_maintained { e with rootEntryCounts := _ }
  | some previous =>
    dsimp only
    split_ifs
    · exact Maintained.refl e
    · exact count_maintained e

theorem reactivateNodes_maintained (root : String) (status : FrontierStatus) (l : List String)
    (e : IncrementalFrontierEngine) : Maintained e (reactivateNodes root status l e) := by
  induction l generalizing e with
  | nil => exact Maintained.refl e
  | cons nodeId l ih =>
    rw [reactivateNodes]
    split_ifs
    · exact Maintained.refl e
    · generalize hroots : (e.activeDirtyRoots.get? nodeId).getD ∅ = roots
      have hcount := countReactivated_maintained e root status roots
      dsimp only
      generalize e.countReactivated root status roots = e1 at hcount ⊢
      have hcompute : Maintained e1 (computeFrontier { e1 with
          activeDirtyRoots := e1.activeDirtyRoots.set nodeId (roots.set root status) }
            (roots.set root status).keys).1 := computeFrontierFrom_maintained _ ∅ { e1 with
        activeDirtyRoots := e1.activeDirtyRoots.set nodeId (roots.set root status) }
      generalize computeFrontier { e1 with
        activeDirtyRoots := e1.activeDirtyRoots.set nodeId (roots.set root status) }
          (roots.set root status).keys = p at hcompute ⊢
      obtain ⟨e2, frontier⟩ := p
      have hupdate := updateDirtyState_maintained { e2 with
        activeFrontiers := e2.activeFrontiers.set nodeId frontier } nodeId
      exact hcount.trans (hcompute.trans (Maintained.trans hupdate (ih _)))

theorem reactivateRoot_maintained (e : IncrementalFrontierEngine) (root : String)
    (status : FrontierStatus) : Maintained e (e.reactivateRoot root status) := by
  unfold reactivateRoot
  split_ifs
  · dsimp only
    cases e.dirtyNodesByRoot.get? root with
    | none => exact ⟨⟨rfl, rfl⟩, Or.inl rfl⟩
    | some affected => exact reactivateNodes_maintained root status affected.elems { e with
        tombstonedRootEntries := _
        inactiveRootEntryCounts := _
        inactiveDirtyRoots := _ }
  · exact Maintained.refl e

theorem recordDirect_maintained (status : FrontierStatus) (l : List String)
    (e : IncrementalFrontierEngine) : Maintained e (recordDirect status l e) := by
  induction l generalizing e with
  | nil => exact Maintained.refl e
  | cons id l ih =>
    rw [recordDirect]
    split_ifs
    · exact (reactivateRoot_maintained { e with
        directDirty := e.directDirty.set id (e.raisedStatus status id) } id _).trans (ih _)
    · exact ih { e with directDirty := e.directDirty.set id (e.raisedStatus status id) }

end IncrementalFrontierEngine

end Premise.FrontierEngine
