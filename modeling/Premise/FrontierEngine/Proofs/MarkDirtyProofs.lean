import Premise.FrontierEngine.Proofs.RebuildProofs

/-!
# Proofs: `markDirty`
-/

namespace Premise.FrontierEngine

open Collections Control Premise.Graph Js Relation

namespace IncrementalFrontierEngine

variable {e e' : IncrementalFrontierEngine} {status : FrontierStatus} {pending : Set String}

theorem Settled.touch (h : e.Settled) (w g : Nat) :
    ({ e with frontierWorkUsed := w, generation := g } : IncrementalFrontierEngine).Settled :=
  ⟨⟨h.graph.mirror, h.graph.known, h.graph.acyclic, h.graph.named⟩,
    h.indexed.congr rfl rfl rfl rfl rfl h.indexed.entries_le rfl, h.trusted,
    fun n entry h1 h2 => (h.cached n entry h1 h2).congr rfl (fun _ _ => rfl)⟩

theorem Settled.reset (h : e.Settled) : e.resetFrontierWorkBudget.Settled :=
  h.touch 0 e.generation

/-! ## Recording the direct roots -/

/-- An active root that is recorded with at least its severity waits to be propagated. -/
theorem record_active {id : String} (h : e.Propagating ∅ pending) (hlive : id ∉ e.dead)
    (hknown : id ∈ e.dependencies.keys) (hsevere : status ≠ .fresh)
    (hup : ∀ t, e.directDirty.get? id = some t → t.priority ≤ status.priority) :
    ({ e with directDirty := e.directDirty.set id status } : IncrementalFrontierEngine).Propagating ∅
      (insert id pending) := by
  have hget : ∀ r, (e.directDirty.set id status).get? r
      = if r = id then some status else e.directDirty.get? r :=
    fun r => OrderedMap.get?_set _ _ _ _
  refine ⟨h.status_dirty, h.reach, ?_, h.nodes_reach, h.nodes_mem, h.dead_nodes, h.entries_le,
    h.closure, h.frontier, h.closed, ?_, ?_, ?_, ?_⟩
  · intro n r s hs
    refine (h.sound n r s hs).imp_right ?_
    rintro ⟨t, ht, hle⟩
    refine ⟨if r = id then status else t, ?_, ?_⟩
    · rw [hget]
      split_ifs
      · rfl
      · exact ht
    · split_ifs with hr
      · exact hle.trans (hup t (hr ▸ ht))
      · exact hle
  · intro r t ht
    rw [hget] at ht
    split_ifs at ht
    · exact (Option.some.inj ht) ▸ hsevere
    · exact h.dirty_severe r t ht
  · intro r t ht
    rw [hget] at ht
    split_ifs at ht with hr
    · rw [hr]
      exact hknown
    · exact h.dirty_known r t ht
  · intro r t ht
    rw [hget] at ht
    split_ifs at ht with hr
    · rw [hr]
      exact hlive
    · exact h.dirty_alive r t ht
  · intro r t ht hr
    have hne : r ≠ id := fun h => hr (h ▸ Set.mem_insert id pending)
    rw [hget, if_neg hne] at ht
    exact h.seeded r t ht fun hp => hr (Set.mem_insert_of_mem id hp)

theorem reactivateRoot_exceeded {id : String} (h : e.frontierBudgetExceeded = true) :
    (e.reactivateRoot id status).frontierBudgetExceeded = true := by
  unfold reactivateRoot
  dsimp only
  split_ifs
  · cases e.dirtyNodesByRoot.get? id with
    | none => exact h
    | some affected =>
      dsimp only
      rw [reactivateNodes_exceeded _ (by exact h)]
      exact h
  · exact h

theorem recordDirect_exceeded (list : List String) (h : e.frontierBudgetExceeded = true) :
    (recordDirect status list e).frontierBudgetExceeded = true := by
  induction list generalizing e with
  | nil => exact h
  | cons id rest ih =>
    simp only [recordDirect]
    refine ih ?_
    split_ifs
    · exact reactivateRoot_exceeded h
    · exact h

theorem statusMax_priority (left right : FrontierStatus) :
    (statusMax left right).priority = max left.priority right.priority := by
  unfold statusMax
  split_ifs with h
  · exact (max_eq_left h).symm
  · exact (max_eq_right (by omega)).symm

theorem raisedStatus_severe (hsevere : status ≠ .fresh) (id : String) : e.raisedStatus status id ≠ .fresh ∧
      ∀ t, e.directDirty.get? id = some t → t.priority ≤ (e.raisedStatus status id).priority := by
  unfold raisedStatus
  cases e.directDirty.get? id with
  | none => exact ⟨hsevere, fun t ht => by cases ht⟩
  | some previous =>
    have hmax := statusMax_priority previous status
    have hpos := priority_pos hsevere
    refine ⟨?_, ?_⟩
    · intro h
      dsimp only at h
      rw [h] at hmax
      have : FrontierStatus.fresh.priority = 0 := rfl
      omega
    · intro t ht
      cases ht
      dsimp only
      omega

theorem recordDirect_spec (hg : e.GraphInv) (hsevere : status ≠ .fresh) (list : List String)
    (h : e.Propagating ∅ pending) (hknown : ∀ id ∈ list, id ∈ e.dependencies.keys)
    (hok : (recordDirect status list e).frontierBudgetExceeded = false) :
    e.frontierBudgetExceeded = false ∧ (recordDirect status list e).Propagating ∅ {x | x ∈ pending ∨ x ∈ list} ∧
      Frame { e with directDirty := (recordDirect status list e).directDirty } (recordDirect status list e) ∧
      (∀ r, r ∉ list → (recordDirect status list e).directDirty.get? r = e.directDirty.get? r) ∧
      ∀ r, (r ∈ list ∨ r ∈ e.directDirty.keys) → r ∈ (recordDirect status list e).directDirty.keys := by
  induction list generalizing e pending with
  | nil =>
    refine ⟨hok, h.mono subset_rfl subset_rfl (fun x hx => Or.inl hx),
      ⟨rfl, rfl, rfl, rfl, rfl, rfl, rfl, rfl⟩, fun _ _ => rfl, fun r hr => ?_⟩
    exact hr.resolve_left List.not_mem_nil
  | cons id rest ih =>
    simp only [recordDirect] at hok ⊢
    obtain ⟨hsev, hup⟩ := raisedStatus_severe (e := e) hsevere id
    generalize e.raisedStatus status id = raised at hsev hup hok ⊢
    have hid := hknown id (List.mem_cons_self ..)
    -- whichever branch is taken, the root is recorded, active and pending
    have hstep : ∀ e1, e1 = (if id ∈ e.inactiveDirtyRoots then
          reactivateRoot { e with directDirty := e.directDirty.set id raised } id raised
        else { e with directDirty := e.directDirty.set id raised }) →
        e1.frontierBudgetExceeded = false → e.frontierBudgetExceeded = false ∧
          Frame { e with directDirty := e.directDirty.set id raised } e1 ∧
          e1.Propagating ∅ (insert id pending) := by
      intro e1 he1 hok1
      by_cases hdead : id ∈ e.inactiveDirtyRoots
      · rw [if_pos hdead] at he1
        subst he1
        exact reactivateRoot_spec hg h hdead hid hsev hok1
      · rw [if_neg hdead] at he1
        subst he1
        exact ⟨hok1, ⟨rfl, rfl, rfl, rfl, rfl, rfl, rfl, rfl⟩, record_active h hdead hid hsev hup⟩
    generalize (if id ∈ e.inactiveDirtyRoots then
          reactivateRoot { e with directDirty := e.directDirty.set id raised } id raised
        else { e with directDirty := e.directDirty.set id raised }) = e1 at hstep hok ⊢
    have hok1 : e1.frontierBudgetExceeded = false := by
      rw [Bool.eq_false_iff]
      intro hx
      rw [recordDirect_exceeded rest hx] at hok
      cases hok
    obtain ⟨hoke, hframe, hprop⟩ := hstep e1 rfl hok1
    have hdeps : e1.dependencies = e.dependencies := hframe.dependencies
    have hdirect : e1.directDirty = e.directDirty.set id raised := hframe.directDirty
    obtain ⟨-, h1, h2, h3, h4⟩ := ih (hg.congr hdeps hframe.dependents) hprop
      (fun x hx => by rw [hdeps]; exact hknown x (List.mem_cons_of_mem _ hx)) hok
    refine ⟨hoke, h1.mono subset_rfl subset_rfl ?_, ?_, ?_, ?_⟩
    · rintro x (hx | hx)
      · rcases Set.mem_insert_iff.mp hx with rfl | hx
        · exact .inr (List.mem_cons_self ..)
        · exact .inl hx
      · exact .inr (List.mem_cons_of_mem _ hx)
    · exact ⟨h2.maxWork.trans hframe.maxWork, h2.dependencies.trans hframe.dependencies,
        h2.dependents.trans hframe.dependents, rfl, h2.frontierCache.trans hframe.frontierCache,
        h2.generation.trans hframe.generation, h2.graphRevision.trans hframe.graphRevision,
        h2.trusted.trans hframe.trusted⟩
    · intro r hr
      rw [List.mem_cons, not_or] at hr
      rw [h3 r hr.2, hdirect, OrderedMap.get?_set_of_ne _ _ hr.1]
    · intro r hr
      refine h4 r ?_
      rw [hdirect, OrderedMap.mem_keys_set, List.mem_cons] at *
      tauto

theorem checkKnown_ok {list : List String} (h : e.checkKnown list = .ok ()) : ∀ id ∈ list, id ∈ e.dependencies.keys := by
  induction list with
  | nil => simp
  | cons id rest ih =>
    intro x hx
    rw [checkKnown] at h
    cases hid : assertId id "node id" with
    | error err => simp [hid, bind, Except.bind] at h
    | ok u =>
      simp only [hid, bind, Except.bind] at h
      by_cases hhas : e.dependencies.has id = true
      · simp only [hhas, Bool.not_true, Bool.false_eq_true, if_false] at h
        rcases List.mem_cons.mp hx with rfl | hx
        · exact e.dependencies.has_eq_true.mp hhas
        · exact ih h x hx
      · simp [hhas, throw, throwThe, MonadExceptOf.throw] at h

theorem Settled.mem_rootNodes (h : e.Settled) {r : String} (hr : r ∈ e.directDirty.keys)
    (x : String) : x ∈ e.rootNodes r ↔ e.Reach r x := by
  obtain ⟨t, ht⟩ := e.directDirty.mem_keys.mp hr
  constructor
  · exact h.indexed.nodes_reach r x
  · intro hx
    obtain ⟨s, hs, -⟩ := h.indexed.status_of_reach ht hx
    exact h.indexed.nodes_mem x r s hs

/-- What `markDirty` and `replaceStatus` leave and report. -/
structure ImpactSpec (e : IncrementalFrontierEngine) (ids : List String)
    (r : IncrementalFrontierEngine × Except JsError FrontierImpact) : Prop where
  settled : r.1.Settled
  affected : ∀ impact, r.2 = .ok impact → ∀ x, x ∈ impact.affected ↔ ∃ id ∈ ids, e.Reach id x

theorem markDirty_spec (h : e.Settled) (nodeIds : List String) (status : FrontierStatus)
    (hok : (e.markDirty nodeIds status).1.frontierBudgetExceeded = false) :
    ImpactSpec e nodeIds (e.markDirty nodeIds status) := by
  unfold markDirty at hok ⊢
  dsimp only at hok ⊢
  have h0 := h.reset
  have hreach0 : e.resetFrontierWorkBudget.Reach = e.Reach := rfl
  generalize e.resetFrontierWorkBudget = e₀ at h0 hreach0 hok ⊢
  by_cases hfresh : status = .fresh
  · rw [if_pos hfresh] at hok ⊢
    exact ⟨h0, fun impact him => by cases him⟩
  rw [if_neg hfresh] at hok ⊢
  cases hcheck : e₀.checkKnown (unique nodeIds) with
  | error err =>
    rw [hcheck] at hok
    exact ⟨h0, fun impact him => by cases him⟩
  | ok u =>
    rw [hcheck] at hok
    have hknown := checkKnown_ok hcheck
    have h1 := h0.touch e₀.frontierWorkUsed (e₀.generation + 1)
    by_cases hnoop : (unique nodeIds).all (e₀.coveredRoot status) = true
    · rw [if_pos hnoop] at hok ⊢
      obtain ⟨-, hI, hmf, hmem⟩ := affectedFromRoots_spec (unique nodeIds) h1.indexed hok
      have hdirect : ∀ id ∈ unique nodeIds, id ∈ e₀.directDirty.keys := by
        intro id hid
        have hcov := List.all_eq_true.mp hnoop id hid
        unfold coveredRoot at hcov
        cases hget : e₀.directDirty.get? id with
        | none => simp [hget] at hcov
        | some t => exact e₀.directDirty.mem_keys_of_get? hget
      refine ⟨⟨hmf.frame.graphInv h1.graph, ?_, hmf.frame.trusted.trans h1.trusted, ?_⟩, ?_⟩
      · unfold Propagating
        rw [hmf.frame.directDirty, hmf.dead_eq]
        exact hI
      · intro n entry hentry hrev
        rw [hmf.frame.frontierCache] at hentry
        rw [hmf.frame.graphRevision] at hrev
        refine (h1.cached n entry hentry hrev).congr ?_ fun r _ => by rw [hmf.frame.directDirty]
        funext a b
        unfold DependsOn
        rw [hmf.frame.dependencies]
      · intro impact him x
        cases him
        rw [hmem x, ← hreach0]
        simp only [mem_unique]
        refine exists_congr fun id => and_congr_right (fun hid => ?_)
        have := h0.mem_rootNodes (hdirect id (mem_unique.mpr hid)) x
        constructor
        · rintro (rfl | hx)
          · exact ReflTransGen.refl
          · exact this.mp hx
        · exact fun hx => Or.inr (this.mpr hx)
    · rw [if_neg hnoop] at hok ⊢
      have hrec := recordDirect_spec h1.graph hfresh (unique nodeIds) h1.indexed hknown
      generalize recordDirect status (unique nodeIds) { e₀ with generation := e₀.generation + 1 } = e2 at hrec hok ⊢
      have hseeds : ∀ x, (∃ p ∈ (unique nodeIds).map
          (fun id => (id, (e2.directDirty.get? id).getD FrontierStatus.fresh)), p.1 = x)
          ↔ x ∈ unique nodeIds := by
        intro x
        constructor
        · rintro ⟨p, hp, rfl⟩
          obtain ⟨id, hid, rfl⟩ := List.mem_map.mp hp
          exact hid
        · intro hx
          exact ⟨_, List.mem_map.mpr ⟨x, hx, rfl⟩, rfl⟩
      have hok2 : e2.frontierBudgetExceeded = false := propagateDirty_within hok
      obtain ⟨-, hprop, hframe, hother, hkeys⟩ := hrec hok2
      have hpend : {x | x ∈ (∅ : Set String) ∨ x ∈ unique nodeIds} = {x | ∃ p ∈ (unique nodeIds).map
            (fun id => (id, (e2.directDirty.get? id).getD FrontierStatus.fresh)), p.1 = x} := by
        ext x
        rw [Set.mem_ofPred_eq, Set.mem_ofPred_eq, hseeds x]
        simp
      rw [hpend] at hprop
      have hspec := propagateDirty_spec (h1.graph.congr hframe.dependencies hframe.dependents) _ hprop (by
          intro p hp
          obtain ⟨id, hid, rfl⟩ := List.mem_map.mp hp
          obtain ⟨t, ht⟩ := e2.directDirty.mem_keys.mp (hkeys id (Or.inl hid))
          rw [ht]
          rfl) hok
      generalize e2.propagateDirty ((unique nodeIds).map
        (fun id => (id, (e2.directDirty.get? id).getD FrontierStatus.fresh))) = r3 at hspec hok ⊢
      obtain ⟨e3, affected⟩ := r3
      obtain ⟨-, hgrows, hprop3, hmem⟩ := hspec
      have hdeps : e3.dependencies = e₀.dependencies :=
        hgrows.frame.dependencies.trans hframe.dependencies
      have hdents : e3.dependents = e₀.dependents :=
        hgrows.frame.dependents.trans hframe.dependents
      have hmem' : ∀ x, x ∈ affected ↔ ∃ id ∈ nodeIds, e₀.Reach id x := by
        intro x
        rw [hmem x, reach_congr hframe.dependents]
        constructor
        · rintro ⟨p, hp, hx⟩
          exact ⟨p.1, mem_unique.mp ((hseeds p.1).mp ⟨p, hp, rfl⟩), hx⟩
        · rintro ⟨id, hid, hx⟩
          obtain ⟨p, hp, rfl⟩ := (hseeds id).mpr (mem_unique.mpr hid)
          exact ⟨p, hp, hx⟩
      refine ⟨h0.invalidate (h0.graph.congr hdeps hdents) hprop3 ?_ hdeps ?_ ?_ ?_, ?_⟩
      · rw [hgrows.frame.trusted, hframe.trusted]
        exact h0.trusted
      · exact hgrows.frame.graphRevision.trans hframe.graphRevision
      · exact hgrows.frame.frontierCache.trans hframe.frontierCache
      · intro r
        by_cases hr : r ∈ unique nodeIds
        · exact .inr fun n hn => (hmem' n).mpr ⟨r, mem_unique.mp hr, hn⟩
        · refine .inl ?_
          rw [hgrows.frame.directDirty]
          exact hother r hr
      · intro impact him x
        cases him
        rw [hmem' x, hreach0]

end IncrementalFrontierEngine

end Premise.FrontierEngine
