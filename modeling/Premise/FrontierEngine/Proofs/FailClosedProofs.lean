import Premise.FrontierEngine.Proofs.TrustProofs

/-!
# Proofs: an engine that has lost trust answers `UNKNOWN`

An answer is cached after the last look at the budget, so a query that exceeds the budget in between
leaves a complete answer behind; `QueryFits` is what keeps it from doing so.
-/

namespace Premise.FrontierEngine

open Collections Control Js

namespace IncrementalFrontierEngine

variable {e e' e'' : IncrementalFrontierEngine}

/-- Without trust, the cache holds no answer but `UNKNOWN`. -/
structure Closed (e : IncrementalFrontierEngine) : Prop where
  exceeded : e.frontierBudgetExceeded = true → e.trusted = false
  cached : e.trusted = false → ∀ n entry, e.frontierCache.get? n = some entry →
    entry.result.status = .unknown ∧ entry.result.complete = false

/-- `e'` is as trusted as `e` and has no new cache entries, or has none at all. -/
def Narrowed (e e' : IncrementalFrontierEngine) : Prop :=
  (e'.trusted = e.trusted ∧ e'.frontierBudgetExceeded = e.frontierBudgetExceeded ∧
    ∀ n entry, e'.frontierCache.get? n = some entry → e.frontierCache.get? n = some entry) ∨
  (e'.trusted = false ∧ ∀ n, e'.frontierCache.get? n = none)

theorem Narrowed.refl (e : IncrementalFrontierEngine) : Narrowed e e :=
  Or.inl ⟨rfl, rfl, fun _ _ h => h⟩

theorem Guarded.narrowed (h : Guarded e e') : Narrowed e e' := by
  unfold Guarded trustState at h
  rcases h with h | h
  · obtain ⟨htrusted, h⟩ := Prod.mk.inj h
    obtain ⟨hexceeded, hcache⟩ := Prod.mk.inj h
    exact .inl ⟨htrusted, hexceeded, fun n entry hn => hcache ▸ hn⟩
  · obtain ⟨htrusted, h⟩ := Prod.mk.inj h
    obtain ⟨-, hcache⟩ := Prod.mk.inj h
    exact .inr ⟨htrusted, fun n => by rw [hcache]; rfl⟩

theorem Narrowed.trans (h : Narrowed e e') (h' : Narrowed e' e'') : Narrowed e e'' := by
  rcases h' with ⟨htrusted', hexceeded', hcache'⟩ | h'
  · rcases h with ⟨htrusted, hexceeded, hcache⟩ | ⟨htrusted, hcache⟩
    · exact .inl ⟨htrusted'.trans htrusted, hexceeded'.trans hexceeded,
        fun n entry hn => hcache n entry (hcache' n entry hn)⟩
    · refine .inr ⟨htrusted'.trans htrusted, fun n => ?_⟩
      cases hn : e''.frontierCache.get? n with
      | none => rfl
      | some entry =>
        have := hcache' n entry hn
        rw [hcache n] at this
        cases this
  · exact .inr h'

theorem Narrowed.closed (h : Narrowed e e') (hc : e.Closed) : e'.Closed := by
  rcases h with ⟨htrusted, hexceeded, hcache⟩ | ⟨htrusted, hcache⟩
  · refine ⟨fun hx => ?_, fun ht n entry hn => ?_⟩
    · rw [htrusted]
      exact hc.exceeded (hexceeded.symm.trans hx)
    · exact hc.cached (htrusted.symm.trans ht) n entry (hcache n entry hn)
  · refine ⟨fun _ => htrusted, fun _ n entry hn => ?_⟩
    rw [hcache n] at hn
    cases hn

theorem Closed.reset (hc : e.Closed) : e.resetFrontierWorkBudget.Closed :=
  ⟨hc.exceeded, hc.cached⟩

theorem Narrowed.untrusted (h : Narrowed e e') (ht : e.trusted = false) : e'.trusted = false := by
  rcases h with ⟨htrusted, -⟩ | ⟨htrusted, -⟩
  · exact htrusted.trans ht
  · exact htrusted

theorem invalidateTargets_narrowed (e : IncrementalFrontierEngine) (targets : List String) :
    Narrowed e (e.invalidateTargets targets) := by
  have hfold : ∀ (l : List String) (m : OrderedMap String FrontierCacheEntry) n entry,
      (l.foldl OrderedMap.erase m).get? n = some entry → m.get? n = some entry := by
    intro l
    induction l with
    | nil => exact fun m n entry hn => hn
    | cons a l ih =>
      intro m n entry hn
      have := ih (m.erase a) n entry hn
      rw [OrderedMap.get?_erase] at this
      split_ifs at this
      exact this
  exact .inl ⟨rfl, rfl, hfold targets e.frontierCache⟩

theorem invalidateAllCaches_narrowed (e : IncrementalFrontierEngine) : Narrowed e e.invalidateAllCaches :=
  Or.inl ⟨rfl, rfl, fun n entry hn => by cases hn⟩

theorem rebuilt_narrowed (e : IncrementalFrontierEngine) : Narrowed e e.rebuildDirtyState.invalidateAllCaches :=
  (rebuildDirtyState_maintained e).2.narrowed.trans (invalidateAllCaches_narrowed _)

/-! ## Operations -/

theorem setDependencies_narrowed (e : IncrementalFrontierEngine) (id : String)
    (dependsOn : List String) : Narrowed e (e.setDependencies id dependsOn).1 := by
  unfold setDependencies
  cases assertId id "node id" with
  | error err => exact Narrowed.refl e
  | ok u =>
    dsimp only
    generalize addMissingNodes id (unique dependsOn) e.resetFrontierWorkBudget.dependencies = p
    obtain ⟨dependencies, _ | u⟩ := p
    · exact Narrowed.refl e
    · dsimp only
      split
      · exact Narrowed.refl e
      · exact rebuilt_narrowed { e.resetFrontierWorkBudget with
          dependencies := _
          dependents := _
          graphRevision := _
          generation := _ }

theorem addNode_narrowed (e : IncrementalFrontierEngine) (id : String) (dependsOn : List String) :
    Narrowed e (e.addNode id dependsOn).1 := by
  unfold addNode
  cases assertId id "node id" with
  | error err => exact Narrowed.refl e
  | ok u =>
    split_ifs
    · exact Narrowed.refl e
    · exact setDependencies_narrowed e id dependsOn

theorem removeNode_narrowed (e : IncrementalFrontierEngine) (id : String) : Narrowed e (e.removeNode id).1 := by
  unfold removeNode
  cases assertId id "node id" with
  | error err => exact Narrowed.refl e
  | ok u =>
    dsimp only
    split_ifs
    · exact Narrowed.refl e
    · exact Narrowed.refl e
    · exact rebuilt_narrowed { e.resetFrontierWorkBudget with
        dependencies := _
        dependents := _
        directDirty := _
        graphRevision := _
        generation := _ }

theorem markDirty_narrowed (e : IncrementalFrontierEngine) (nodeIds : List String)
    (status : FrontierStatus) : Narrowed e (e.markDirty nodeIds status).1 := by
  unfold markDirty
  dsimp only
  split_ifs
  · exact Narrowed.refl e
  · cases e.resetFrontierWorkBudget.checkKnown (unique nodeIds) with
    | error err => exact Narrowed.refl e
    | ok u => exact (affectedFromRoots_maintained { e.resetFrontierWorkBudget with
        generation := e.resetFrontierWorkBudget.generation + 1 } (unique nodeIds)).2.narrowed
  · cases e.resetFrontierWorkBudget.checkKnown (unique nodeIds) with
    | error err => exact Narrowed.refl e
    | ok u =>
      have hrecord := recordDirect_maintained status (unique nodeIds) { e.resetFrontierWorkBudget with
        generation := e.resetFrontierWorkBudget.generation + 1 }
      generalize recordDirect status (unique nodeIds) { e.resetFrontierWorkBudget with
        generation := e.resetFrontierWorkBudget.generation + 1 } = e1 at hrecord ⊢
      have hpropagate := propagateDirty_maintained e1
        ((unique nodeIds).map (fun id => (id, (e1.directDirty.get? id).getD .fresh)))
      have hall : Maintained e _ := Maintained.trans hrecord hpropagate
      exact hall.2.narrowed.trans (invalidateTargets_narrowed _ _)

theorem replaceStatus_narrowed (e : IncrementalFrontierEngine) (nodeId : String)
    (status : FrontierStatus) : Narrowed e (e.replaceStatus nodeId status).1 := by
  unfold replaceStatus
  cases assertId nodeId "node id" with
  | error err => exact Narrowed.refl e
  | ok u =>
    dsimp only
    split_ifs
    · exact Narrowed.refl e
    all_goals exact (rebuildDirtyState_maintained { e.resetFrontierWorkBudget with
        directDirty := _
        generation := _ }).2.narrowed.trans (invalidateTargets_narrowed _ _)

theorem markUnknown_untrusted (e : IncrementalFrontierEngine) :
    e.markUnknown.trusted = false ∧ ∀ n, e.markUnknown.frontierCache.get? n = none :=
  ⟨rfl, fun _ => rfl⟩

theorem resolve_narrowed (e : IncrementalFrontierEngine) (nodeId : String) : Narrowed e (e.resolve nodeId).1 := by
  unfold resolve
  cases assertId nodeId "node id" with
  | error err => exact Narrowed.refl e
  | ok u =>
    dsimp only
    by_cases hunknown : (!e.resetFrontierWorkBudget.dependencies.has nodeId) = true
    · rw [if_pos hunknown]
      exact Narrowed.refl e
    · rw [if_neg hunknown]
      split
      · exact Narrowed.refl e
      · exact Narrowed.trans (Or.inr (markUnknown_untrusted e.resetFrontierWorkBudget)) (invalidateTargets_narrowed _ _)
      · refine Narrowed.trans ?_ (invalidateTargets_narrowed _ _)
        split_ifs
        · exact .inr ⟨rfl, fun _ => rfl⟩
        · exact Narrowed.refl e

theorem resolve_unknown {nodeId : String} {impact : FrontierImpact}
    (hok : (e.resolve nodeId).2 = .ok impact) (h : e.directDirty.get? nodeId = some .unknown) :
    (e.resolve nodeId).1.trusted = false := by
  unfold resolve at hok ⊢
  cases ha : assertId nodeId "node id" with
  | error err =>
    rw [ha] at hok
    cases hok
  | ok u =>
    rw [ha] at hok
    dsimp only at hok ⊢
    have hknown : ¬ (!e.resetFrontierWorkBudget.dependencies.has nodeId) = true := by
      intro hunknown
      rw [if_pos hunknown] at hok
      cases hok
    rw [if_neg hknown]
    have h' : e.resetFrontierWorkBudget.directDirty.get? nodeId = some .unknown := h
    rw [h']
    rfl

theorem restoreStates_error {states : List (String × FrontierStatus)}
    (h : (e.restoreStates states).2 ≠ .ok ()) : Narrowed e (e.restoreStates states).1 := by
  unfold restoreStates at h ⊢
  dsimp only at h ⊢
  split
  · exact Narrowed.refl e
  · rename_i next seen hcheck
    rw [hcheck] at h
    dsimp only at h
    split
    · exact Narrowed.refl e
    · rename_i hfind
      rw [hfind] at h
      exact absurd rfl h

theorem restoreStates_closed (hc : e.Closed) (states : List (String × FrontierStatus)) :
    (e.restoreStates states).1.Closed := by
  by_cases h : (e.restoreStates states).2 = .ok ()
  · unfold restoreStates at h ⊢
    dsimp only at h ⊢
    split
    · exact hc.reset
    · split
      · exact hc.reset
      · exact (rebuilt_narrowed _).closed ⟨nofun, nofun⟩
  · exact (restoreStates_error h).closed hc

/-! ## Queries -/

theorem count_within (hok : e.frontierBudgetExceeded = false)
    (h : e.frontierWorkUsed + 1 ≤ e.maxWork) :
    e.count = { e with frontierWorkUsed := e.frontierWorkUsed + 1 } := by
  rw [count_eq, if_neg (by simp [hok]), if_neg (by omega)]

theorem foldStatus_within (l : List (String × FrontierStatus)) (status : FrontierStatus)
    (hok : e.frontierBudgetExceeded = false) (h : e.frontierWorkUsed + l.length ≤ e.maxWork) :
    (foldStatus l status e).1 = { e with frontierWorkUsed := e.frontierWorkUsed + l.length } := by
  induction l generalizing status e with
  | nil => rfl
  | cons p l ih =>
    obtain ⟨root, value⟩ := p
    rw [List.length_cons] at h
    have hcount := count_within hok (by omega)
    have hrest : ∀ status, (foldStatus l status { e with
        frontierWorkUsed := e.frontierWorkUsed + 1 }).1 = { e with
          frontierWorkUsed := e.frontierWorkUsed + (l.length + 1) } := by
      intro status
      rw [ih (e := { e with frontierWorkUsed := e.frontierWorkUsed + 1 }) status hok
        (show e.frontierWorkUsed + 1 + l.length ≤ e.maxWork by omega)]
      rw [show e.frontierWorkUsed + 1 + l.length = e.frontierWorkUsed + (l.length + 1) by omega]
    rw [foldStatus, hcount]
    split_ifs
    · exact hrest _
    · exact hrest _

theorem cache_closed (hc : e.Closed) (nodeId : String) (result : FrontierResult)
    (hresult : e.trusted = false → result.status = .unknown ∧ result.complete = false) :
    (e.cache nodeId result).1.Closed := by
  refine ⟨hc.exceeded, fun ht n entry hn => ?_⟩
  unfold cache at hn
  rw [OrderedMap.get?_set] at hn
  split_ifs at hn
  · cases hn
    exact hresult ht
  · exact hc.cached ht n entry hn

theorem answerFrontier_closed (hc : e.Closed) (nodeId : String) (hfits : e.frontierIsComplete = true →
      (e.compactResolvedRoots nodeId).1.frontierIsComplete = true →
      (e.compactResolvedRoots nodeId).1.frontierWorkUsed
        + (((e.compactResolvedRoots nodeId).1.activeDirtyRoots.get? nodeId).getD ∅).size + 2
        ≤ (e.compactResolvedRoots nodeId).1.maxWork) :
    (e.answerFrontier nodeId).1.Closed := by
  have hcompact := (compactResolvedRoots_maintained e nodeId).2.narrowed.closed hc
  unfold answerFrontier
  generalize e.compactResolvedRoots nodeId = p at hcompact hfits ⊢
  obtain ⟨e1, changed⟩ := p
  dsimp only at hcompact hfits ⊢
  unfold frontierIsComplete at hfits
  split_ifs with h0 h1
  · exact cache_closed hc nodeId _ fun _ => ⟨rfl, rfl⟩
  · exact cache_closed hcompact nodeId _ fun _ => ⟨rfl, rfl⟩
  · have htrusted : e1.trusted = true := by
      by_contra hn
      exact h1 (by simp [hn])
    have hok : e1.frontierBudgetExceeded = false := by
      by_contra hn
      exact h1 (by simp [hn])
    have hroom := hfits (by simpa using h0) (by simpa using h1)
    generalize hroots : ((e1.activeDirtyRoots.get? nodeId).getD ∅) = roots at hroom ⊢
    have hsize : roots.entries.length = roots.size := rfl
    have hfold := foldStatus_within (e := { e1 with
      frontierWorkUsed := e1.frontierWorkUsed + 1 }) roots.entries .fresh hok (by dsimp only; omega)
    rw [count_within hok (by omega)]
    generalize foldStatus roots.entries .fresh { e1 with
      frontierWorkUsed := e1.frontierWorkUsed + 1 } = p at hfold ⊢
    obtain ⟨e2, status⟩ := p
    subst hfold
    rw [count_within (e := { e1 with
      frontierWorkUsed := e1.frontierWorkUsed + 1 + roots.entries.length }) hok
        (by dsimp only; omega)]
    refine cache_closed ⟨fun hx => ?_, fun ht => ?_⟩ nodeId _ (fun ht => ?_)
    · exact absurd (hok.symm.trans hx) (by simp)
    · exact absurd (htrusted.symm.trans ht) (by simp)
    · exact absurd (htrusted.symm.trans ht) (by simp)

theorem frontier_closed (hc : e.Closed) (nodeId : String)
    (hfits : e.QueryFits (.op (.frontier nodeId))) : (e.frontier nodeId).1.Closed := by
  have hreset := hc.reset
  unfold frontier
  cases hid : assertId nodeId "node id" with
  | error err => exact hreset
  | ok u =>
    dsimp only
    split_ifs with hknown
    · exact hreset
    · have hanswer : (∀ cached, e.frontierCache.get? nodeId = some cached → cached.graphRevision ≠ e.graphRevision) →
          (e.resetFrontierWorkBudget.answerFrontier nodeId).1.Closed := by
        intro huncached
        refine answerFrontier_closed hreset nodeId fun hcomplete hcompacted => ?_
        have hhas : e.resetFrontierWorkBudget.dependencies.has nodeId = true := by
          simpa using hknown
        exact hfits ⟨hid, hhas, huncached, hcomplete, hcompacted⟩
      cases hcached : e.resetFrontierWorkBudget.frontierCache.get? nodeId with
      | none =>
        refine hanswer fun cached h => ?_
        rw [show e.frontierCache.get? nodeId = none from hcached] at h
        cases h
      | some cached =>
        dsimp only
        split_ifs with hrevision
        · exact hreset
        · refine hanswer fun other h => ?_
          rw [show e.frontierCache.get? nodeId = some cached from hcached] at h
          cases h
          exact hrevision

theorem frontier_untrusted (hc : e.Closed) (ht : e.trusted = false) (nodeId : String) :
    (e.frontier nodeId).1.trusted = false ∧ ∀ result, (e.frontier nodeId).2 = .ok result →
      result.status = .unknown ∧ result.complete = false := by
  have htrust : e.resetFrontierWorkBudget.trusted = false := ht
  have hanswer : e.resetFrontierWorkBudget.answerFrontier nodeId = e.resetFrontierWorkBudget.cache nodeId
        (e.resetFrontierWorkBudget.unknownResult e.resetFrontierWorkBudget.generation) := by
    unfold answerFrontier
    rw [if_pos (by simp [htrust])]
  have hcached : (e.resetFrontierWorkBudget.cache nodeId
      (e.resetFrontierWorkBudget.unknownResult e.resetFrontierWorkBudget.generation)).1.trusted
        = false ∧ ∀ result, (e.resetFrontierWorkBudget.cache nodeId
      (e.resetFrontierWorkBudget.unknownResult e.resetFrontierWorkBudget.generation)).2 = .ok result →
        result.status = .unknown ∧ result.complete = false := by
    refine ⟨ht, fun result h => ?_⟩
    cases h
    exact ⟨rfl, rfl⟩
  unfold frontier
  cases assertId nodeId "node id" with
  | error err => exact ⟨ht, by simp⟩
  | ok u =>
    dsimp only
    split_ifs
    · exact ⟨ht, by simp⟩
    · rw [hanswer]
      cases hget : e.resetFrontierWorkBudget.frontierCache.get? nodeId with
      | none => exact hcached
      | some cached =>
        dsimp only
        split_ifs
        · refine ⟨ht, fun result h => ?_⟩
          cases h
          exact hc.cached ht nodeId cached hget
        · exact hcached

/-! ## Runs -/

theorem Closed.call (hc : e.Closed) {c : EngineCall} (hfits : e.QueryFits c) : (e.call c).Closed := by
  cases c with
  | markUnknown => exact Narrowed.closed (Or.inr (markUnknown_untrusted e)) hc
  | restoreTrust => exact Narrowed.closed (Or.inr ⟨rfl, fun _ => rfl⟩) hc
  | op op =>
    cases op with
    | addNode id dependsOn => exact (addNode_narrowed e id dependsOn).closed hc
    | setDependencies id dependsOn => exact (setDependencies_narrowed e id dependsOn).closed hc
    | removeNode id => exact (removeNode_narrowed e id).closed hc
    | markDirty nodeIds status => exact (markDirty_narrowed e nodeIds status).closed hc
    | replaceStatus nodeId status => exact (replaceStatus_narrowed e nodeId status).closed hc
    | resolve nodeId => exact (resolve_narrowed e nodeId).closed hc
    | restoreStates states => exact restoreStates_closed hc states
    | frontier nodeId => exact frontier_closed hc nodeId hfits

theorem Closed.call_untrusted (hc : e.Closed) (ht : e.trusted = false) {c : EngineCall}
    (hrestores : ¬ e.Restores c) : (e.call c).trusted = false := by
  cases c with
  | markUnknown | restoreTrust => rfl
  | op op =>
    cases op with
    | addNode id dependsOn => exact (addNode_narrowed e id dependsOn).untrusted ht
    | setDependencies id dependsOn => exact (setDependencies_narrowed e id dependsOn).untrusted ht
    | removeNode id => exact (removeNode_narrowed e id).untrusted ht
    | markDirty nodeIds status => exact (markDirty_narrowed e nodeIds status).untrusted ht
    | replaceStatus nodeId status => exact (replaceStatus_narrowed e nodeId status).untrusted ht
    | resolve nodeId => exact (resolve_narrowed e nodeId).untrusted ht
    | restoreStates states => exact (restoreStates_error hrestores).untrusted ht
    | frontier nodeId => exact (frontier_untrusted hc ht nodeId).1

theorem QueryFits.of_untrusted (ht : e.trusted = false) (c : EngineCall) : e.QueryFits c := by
  cases c with
  | op op =>
    cases op with
    | frontier nodeId =>
      intro hcomputes
      have hcomplete := hcomputes.complete
      unfold frontierIsComplete at hcomplete
      simp [ht] at hcomplete
    | _ => trivial
  | _ => trivial

theorem LosesTrust.untrusted {c : EngineCall} (hlost : e.LosesTrust c) (hc : (e.call c).Closed) :
    (e.call c).trusted = false := by
  rcases hlost with hwithdraws | hexceeded
  · cases c with
    | markUnknown | restoreTrust => rfl
    | op op =>
      cases op with
      | resolve nodeId =>
        obtain ⟨⟨impact, hok⟩, hunknown⟩ := hwithdraws
        exact resolve_unknown hok hunknown
      | _ => exact hwithdraws.elim
  · exact hc.exceeded hexceeded

theorem create_closed {maxWork : Nat} {nodes : List FrontierNode} (h : create maxWork nodes = .ok e) : e.Closed := by
  unfold create at h
  cases hadd : addInitialNodes nodes ∅ with
  | error err =>
    rw [hadd] at h
    cases h
  | ok dependencies =>
    rw [hadd] at h
    cases hacyclic : assertAcyclicGraph dependencies with
    | error err =>
      simp only [bind, Except.bind, hacyclic] at h
      cases h
    | ok u =>
      simp only [bind, Except.bind, hacyclic, pure, Except.pure] at h
      cases h
      exact (rebuildDirtyState_maintained _).2.narrowed.closed ⟨nofun, nofun⟩

theorem failsClosed_of_fits (maxWork : Nat) :
    FailsClosed ((engine maxWork).restrict (fun e c _ => e.QueryFits c)) := by
  intro e c e' hreach hstep hlost later hlater nodeId result hresult
  have hclosed : e.Closed := by
    refine hreach.invariant Closed (fun e h => ?_) (fun e c e' hc hstep => ?_)
    · obtain ⟨nodes, hcreate⟩ := h
      exact create_closed hcreate
    · obtain ⟨rfl, hfits⟩ := hstep
      exact hc.call hfits
  obtain ⟨rfl, hfits⟩ := hstep
  have hclosed' := hclosed.call hfits
  have hlost' := hlost.untrusted hclosed'
  have hinv : later.Closed ∧ later.trusted = false := by
    refine hlater.invariant (fun e => e.Closed ∧ e.trusted = false) (fun e h => ?_)
      (fun e c e' hc hstep => ?_)
    · obtain rfl : e = _ := h
      exact ⟨hclosed', hlost'⟩
    · obtain ⟨⟨rfl, -⟩, hrestores⟩ := hstep
      exact ⟨hc.1.call (QueryFits.of_untrusted hc.2 c), hc.1.call_untrusted hc.2 hrestores⟩
  exact (frontier_untrusted hinv.1 hinv.2 nodeId).2 result hresult

/-- With room for one read only, a query of a fresh node exceeds the budget after its last look at
    it. Its complete answer stays in the cache. -/
theorem overrun_in_query_answers : ¬ FailsClosed (engine 1) := by
  intro h
  have hcreate : ∃ e, create 1 [⟨"a", []⟩] = .ok e ∧
      (e.call (.op (.frontier "a"))).frontierBudgetExceeded = true ∧
      ((e.call (.op (.frontier "a"))).frontier "a").2 = .ok ⟨.fresh, [], true, true, 1, 1⟩ :=
    ⟨_, rfl, rfl, rfl⟩
  obtain ⟨e, he, hexceeded, hagain⟩ := hcreate
  have hanswer := h e (.op (.frontier "a")) _ (.init ⟨_, he⟩) rfl (Or.inr hexceeded) _ (.init rfl)
    "a" _ hagain
  cases hanswer.1

end IncrementalFrontierEngine

end Premise.FrontierEngine
