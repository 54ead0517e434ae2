import Premise.FrontierEngine.Proofs.OperationProofs

/-!
# Proofs: `frontier` answers from scratch
-/

namespace Premise.FrontierEngine

open Collections Premise.Graph Js Relation

theorem le_foldl_statusMax (l : List FrontierStatus) (status : FrontierStatus) :
    status.priority ≤ (l.foldl statusMax status).priority ∧
      ∀ s ∈ l, s.priority ≤ (l.foldl statusMax status).priority := by
  induction l generalizing status with
  | nil => exact ⟨le_rfl, fun s hs => absurd hs List.not_mem_nil⟩
  | cons a l ih =>
    obtain ⟨hinit, hrest⟩ := ih (statusMax status a)
    rw [IncrementalFrontierEngine.statusMax_priority] at hinit
    rw [List.foldl_cons]
    refine ⟨by omega, fun s hs => ?_⟩
    rcases List.mem_cons.mp hs with rfl | hs
    · omega
    · exact hrest s hs

theorem foldl_statusMax_mem (l : List FrontierStatus) (status : FrontierStatus) :
    l.foldl statusMax status = status ∨ l.foldl statusMax status ∈ l := by
  induction l generalizing status with
  | nil => exact .inl rfl
  | cons a l ih =>
    rw [List.foldl_cons]
    rcases ih (statusMax status a) with h | h
    · rw [h]
      unfold statusMax
      split_ifs
      · exact .inl rfl
      · exact .inr List.mem_cons_self
    · exact .inr (List.mem_cons_of_mem a h)

namespace IncrementalFrontierEngine

variable {e e' : IncrementalFrontierEngine} {n : String}

theorem count_inactiveDirtyRoots (e : IncrementalFrontierEngine) : e.count.inactiveDirtyRoots = e.inactiveDirtyRoots := by
  rw [count_eq]
  split_ifs <;> rfl

theorem count_activeFrontiers (e : IncrementalFrontierEngine) : e.count.activeFrontiers = e.activeFrontiers := by
  rw [count_eq]
  split_ifs <;> rfl

theorem foldl_count_activeFrontiers {α : Type} (l : List α) (e : IncrementalFrontierEngine) :
    (l.foldl (fun e _ => e.count) e).activeFrontiers = e.activeFrontiers := by
  induction l generalizing e with
  | nil => rfl
  | cons a l ih => exact (ih e.count).trans (count_activeFrontiers e)

theorem foldStatus_eq (roots : List (String × FrontierStatus)) (status : FrontierStatus)
    (hlive : ∀ p ∈ roots, p.1 ∉ e.inactiveDirtyRoots) :
    foldStatus roots status e
      = (roots.foldl (fun e _ => e.count) e, (roots.map Prod.snd).foldl statusMax status) := by
  induction roots generalizing status e with
  | nil => rfl
  | cons p roots ih =>
    have hp : p.1 ∉ e.count.inactiveDirtyRoots := by
      rw [count_inactiveDirtyRoots]
      exact hlive p List.mem_cons_self
    simp only [foldStatus, if_neg hp, List.foldl_cons, List.map_cons]
    refine ih _ fun q hq => ?_
    rw [count_inactiveDirtyRoots]
    exact hlive q (List.mem_cons_of_mem p hq)

theorem Settled.charged (h : e.Settled) (hch : Charged e e') (hok : e'.frontierBudgetExceeded = false) : e'.Settled := by
  obtain ⟨-, w, rfl⟩ := hch.within hok
  exact h.touch w e.generation

theorem Settled.compact (h : e.Settled)
    (hok : (e.compactResolvedRoots n).1.frontierBudgetExceeded = false) :
    (e.compactResolvedRoots n).1.Settled := by
  obtain ⟨-, hindexed, hcompacts, -⟩ := compactResolvedRoots_spec n h.graph h.indexed hok
  have hframe := hcompacts.grows.frame
  have hdep : (e.compactResolvedRoots n).1.DependsOn = e.DependsOn := by
    unfold DependsOn
    rw [hframe.dependencies]
  refine ⟨hframe.graphInv h.graph, ?_, hframe.trusted.trans h.trusted, ?_⟩
  · unfold Propagating
    rw [hframe.directDirty]
    exact hindexed
  · intro m entry hentry hrevision
    rw [hframe.frontierCache] at hentry
    rw [hframe.graphRevision] at hrevision
    exact (h.cached m entry hentry hrevision).congr hdep fun r _ => by rw [hframe.directDirty]

theorem Settled.cache {res : FrontierResult} (h : e.Settled) (hres : e.NaiveAnswer n res) : (e.cache n res).1.Settled := by
  refine ⟨⟨h.graph.mirror, h.graph.known, h.graph.acyclic, h.graph.named⟩,
    h.indexed.congr rfl rfl rfl rfl rfl h.indexed.entries_le rfl, h.trusted, ?_⟩
  intro m entry hentry hrevision
  rw [show (e.cache n res).1.frontierCache = e.frontierCache.set n ⟨e.graphRevision, res⟩ from rfl,
    OrderedMap.get?_set] at hentry
  have hanswer : e.NaiveAnswer m entry.result := by
    split_ifs at hentry with hm
    · cases hentry
      exact hm ▸ hres
    · exact h.cached m entry hentry hrevision
  exact hanswer.congr rfl fun _ _ => rfl

/-! ## The answer -/

/-- The roots and the maintained frontier of a node without tombstones give the answer. -/
theorem Settled.answer (h : e.Settled) (hlive : ∀ r s, e.rootStatus n r = some s → r ∉ e.dead)
    (cacheHit : Bool) (graphRevision impactGeneration : Nat) :
    e.NaiveAnswer n ⟨(((e.activeDirtyRoots.get? n).getD ∅).entries.map Prod.snd).foldl statusMax .fresh,
        sortStrings ((e.activeFrontiers.get? n).getD ∅).elems, true, cacheHit, graphRevision,
        impactGeneration⟩ := by
  have hcause : ∀ r s, e.Cause n r s ↔ e.rootStatus n r = some s := by
    intro r s
    rw [Cause, h.graph.dependsOn_iff_reach]
    constructor
    · rintro ⟨hdirty, hreach⟩
      exact (h.indexed.rootStatus_iff (h.indexed.dirty_alive r s hdirty) s).mpr ⟨hdirty, hreach⟩
    · intro hs
      exact (h.indexed.rootStatus_iff (hlive r s hs) s).mp hs
  have hentries : ∀ s, s ∈ ((e.activeDirtyRoots.get? n).getD ∅).entries.map Prod.snd ↔ ∃ r, e.Cause n r s := by
    intro s
    rw [List.mem_map]
    constructor
    · rintro ⟨⟨r, t⟩, hmem, rfl⟩
      exact ⟨r, (hcause r t).mpr ((OrderedMap.get?_eq_some_iff _).mpr hmem)⟩
    · rintro ⟨r, hr⟩
      exact ⟨(r, s), (OrderedMap.get?_eq_some_iff _).mp ((hcause r s).mp hr), rfl⟩
  obtain ⟨-, hbound⟩ :=
    le_foldl_statusMax (((e.activeDirtyRoots.get? n).getD ∅).entries.map Prod.snd) .fresh
  have hfrontier := h.indexed.frontier n (Set.notMem_empty n) hlive
  refine ⟨?_, fun r s hr => hbound s ((hentries s).mpr ⟨r, hr⟩), sortStrings_sorted _,
    sortStrings_nodup (e.nodeFrontier n).nodup, ?_, rfl⟩
  · exact (foldl_statusMax_mem _ FrontierStatus.fresh).imp_right fun hmem => (hentries _).mp hmem
  · intro r
    rw [mem_sortStrings]
    refine (hfrontier.mem_iff r).trans ?_
    constructor
    · rintro ⟨⟨s, hs⟩, hfirst⟩
      refine ⟨⟨s, (hcause r s).mpr hs⟩, fun q hq hrq => ?_⟩
      -- a dirty node that comes before a root of `n` is a root of `n` itself
      obtain ⟨t, ht⟩ := (OrderedMap.mem_keys _).mp hq
      have hbelow := (h.graph.dependsOn_iff_below q r).mp hrq
      have hqn : e.Reach q n := hbelow.to_reflTransGen.trans (h.indexed.reach n r s hs)
      exact hfirst q ⟨t, (hcause q t).mp ⟨ht, (h.graph.dependsOn_iff_reach q n).mpr hqn⟩⟩ hbelow
    · rintro ⟨⟨s, hs⟩, hfirst⟩
      refine ⟨⟨s, (hcause r s).mp hs⟩, ?_⟩
      rintro q ⟨t, ht⟩ hbelow
      have hq := (hcause q t).mpr ht
      exact hfirst q ((OrderedMap.mem_keys _).mpr ⟨t, hq.1⟩) ((h.graph.dependsOn_iff_below q r).mpr hbelow)

/-- What a query promises: the invariant, and for a known node the answer from scratch. -/
structure QuerySpec (e : IncrementalFrontierEngine) (n : String)
    (out : IncrementalFrontierEngine × Except JsError FrontierResult) : Prop where
  settled : out.1.Settled
  answer : n ∈ e.dependencies.keys → ∃ res, out.2 = .ok res ∧ e.NaiveAnswer n res

theorem answerFrontier_spec (h : e.Settled)
    (hok : (e.answerFrontier n).1.frontierBudgetExceeded = false) :
    QuerySpec e n (e.answerFrontier n) := by
  unfold answerFrontier at hok ⊢
  have hexceeded : ∀ w : IncrementalFrontierEngine, w.trusted = true →
      (!w.trusted || w.frontierBudgetExceeded) = w.frontierBudgetExceeded := by
    intro w hw
    rw [hw]
    rfl
  rw [hexceeded e h.trusted] at hok ⊢
  by_cases hover : e.frontierBudgetExceeded = true
  · rw [if_pos hover] at hok
    exact absurd (hover.symm.trans hok) (by decide)
  rw [if_neg hover] at hok ⊢
  have hcompact := fun hok1 => h.compact (n := n) hok1
  have hspec := compactResolvedRoots_spec n h.graph h.indexed
  generalize e.compactResolvedRoots n = p at hcompact hspec hok ⊢
  obtain ⟨e1, changed⟩ := p
  dsimp only at hcompact hspec hok ⊢
  by_cases hstop : (!e1.trusted || e1.frontierBudgetExceeded) = true
  · rw [if_pos hstop] at hok
    have hok1 : e1.frontierBudgetExceeded = false := hok
    rw [hexceeded e1 (hcompact hok1).trusted] at hstop
    exact absurd (hstop.symm.trans hok1) (by decide)
  rw [if_neg hstop] at hok ⊢
  have hok1 : e1.frontierBudgetExceeded = false := by
    cases hx : e1.frontierBudgetExceeded with
    | false => rfl
    | true => simp [hx] at hstop
  have h1 := hcompact hok1
  obtain ⟨-, -, hcompacts, hlive⟩ := hspec hok1
  have hframe := hcompacts.grows.frame
  generalize hroots : ((e1.activeDirtyRoots.get? n).getD ∅).entries = roots at hok ⊢
  have hliveRoots : ∀ q ∈ roots, q.1 ∉ e1.count.inactiveDirtyRoots := by
    rintro ⟨r, s⟩ hq
    rw [count_inactiveDirtyRoots]
    rw [← hroots] at hq
    exact hlive r s ((OrderedMap.get?_eq_some_iff _).mpr hq)
  rw [foldStatus_eq roots .fresh hliveRoots] at hok ⊢
  have hreads : Charged e1 (roots.foldl (fun e _ => e.count) e1.count).count :=
    ((count_charged e1).trans (foldl_count_charged roots e1.count)).trans (count_charged _)
  have hfrontiers : (roots.foldl (fun e _ => e.count) e1.count).activeFrontiers
      = e1.activeFrontiers := by
    rw [foldl_count_activeFrontiers, count_activeFrontiers]
  rw [hfrontiers] at hok ⊢
  have hok2 : (roots.foldl (fun e _ => e.count) e1.count).count.frontierBudgetExceeded = false := hok
  have h2 := h1.charged hreads hok2
  have hanswer := fun g i => h1.answer (n := n) hlive false g i
  rw [hroots] at hanswer
  obtain ⟨-, w, heq⟩ := hreads.within hok2
  refine ⟨h2.cache ?_, fun _ => ⟨_, rfl, ?_⟩⟩
  · refine (hanswer _ _).congr ?_ fun r _ => ?_
    · rw [heq]
      rfl
    · rw [heq]
  · refine (hanswer _ _).congr ?_ fun r _ => by rw [hframe.directDirty]
    unfold DependsOn
    rw [hframe.dependencies]

theorem frontier_spec (h : e.Settled) (hok : (e.frontier n).1.frontierBudgetExceeded = false) :
    QuerySpec e n (e.frontier n) := by
  unfold frontier at hok ⊢
  have hsame : ∀ res, e.resetFrontierWorkBudget.NaiveAnswer n res → e.NaiveAnswer n res :=
    fun res hres => hres.congr rfl (fun _ _ => rfl)
  have hkeys : e.resetFrontierWorkBudget.dependencies = e.dependencies := rfl
  have h0 := h.reset
  generalize e.resetFrontierWorkBudget = e₀ at h0 hsame hkeys hok ⊢
  have hmiss : (e₀.answerFrontier n).1.frontierBudgetExceeded = false → QuerySpec e n (e₀.answerFrontier n) := by
    intro hok0
    obtain ⟨hsettled, hanswer⟩ := answerFrontier_spec h0 hok0
    refine ⟨hsettled, fun hn => ?_⟩
    obtain ⟨res, hres, hnaive⟩ := hanswer (hkeys ▸ hn)
    exact ⟨res, hres, hsame res hnaive⟩
  cases hid : assertId n "node id" with
  | error err =>
    refine ⟨h0, fun hn => ?_⟩
    have hne : n ≠ "" := fun he => h.graph.named (he ▸ hn)
    rw [assertId, if_neg hne] at hid
    cases hid
  | ok u =>
    rw [hid] at hok
    dsimp only at hok ⊢
    by_cases hhas : (!e₀.dependencies.has n) = true
    · rw [if_pos hhas]
      refine ⟨h0, fun hn => ?_⟩
      rw [hkeys, e.dependencies.has_eq_true.mpr hn] at hhas
      cases hhas
    rw [if_neg hhas] at hok ⊢
    cases hcached : e₀.frontierCache.get? n with
    | none =>
      rw [hcached] at hok
      exact hmiss hok
    | some entry =>
      rw [hcached] at hok
      dsimp only at hok ⊢
      by_cases hcurrent : entry.graphRevision = e₀.graphRevision
      · rw [if_pos hcurrent]
        have hans := hsame _ (h0.cached n entry hcached hcurrent)
        exact ⟨h0, fun _ => ⟨_, rfl, hans.status_attained, hans.status_bound, hans.frontier_sorted,
          hans.frontier_nodup, hans.mem_frontier, hans.complete⟩⟩
      · rw [if_neg hcurrent] at hok ⊢
        exact hmiss hok

end IncrementalFrontierEngine

/-!
# Proofs: runs of the frontier engine
-/

open Control IncrementalFrontierEngine

variable {maxWork : Nat} {e : IncrementalFrontierEngine}

theorem perform_settled (h : e.Settled) (op : EngineOp) (hknown : e.ResolvesKnown op)
    (hok : (e.perform op).frontierBudgetExceeded = false) : (e.perform op).Settled := by
  cases op with
  | addNode id dependsOn => exact addNode_settled h id dependsOn hok
  | setDependencies id dependsOn => exact setDependencies_settled h id dependsOn hok
  | removeNode id => exact removeNode_settled h id hok
  | markDirty nodeIds status => exact (markDirty_spec h nodeIds status hok).settled
  | replaceStatus nodeId status => exact (replaceStatus_spec h nodeId status hok).settled
  | resolve nodeId => exact resolve_settled h nodeId hknown hok
  | restoreStates states => exact restoreStates_settled h states hok
  | frontier nodeId => exact (frontier_spec h hok).settled

theorem withinBudget_settled (h : (withinBudget maxWork).Reachable e) : e.Settled := by
  refine h.invariant Settled (fun e he => ?_) (fun e op e' he hstep => ?_)
  · obtain ⟨nodes, hcreate⟩ := he
    exact create_settled hcreate
  · obtain ⟨hknown, rfl, hok⟩ := hstep
    exact perform_settled he op hknown hok

end Premise.FrontierEngine
