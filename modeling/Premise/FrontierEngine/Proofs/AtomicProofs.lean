import Premise.FrontierEngine.Proofs.OperationProofs
import Premise.FrontierEngine.Proofs.TrustProofs

/-!
# Proofs: when graph mutations are atomic

A mutation that throws leaves the engine as it was up to the work used, except that
`setDependencies` keeps the nodes it has added for the dependencies before one that it refuses.
-/

namespace Premise.FrontierEngine

open Collections Control Premise.Graph Js Relation Adjacency

namespace IncrementalFrontierEngine

variable {e e' : IncrementalFrontierEngine} {m : GraphMutation}

def SameButWork (e e' : IncrementalFrontierEngine) : Prop :=
  e'.resetFrontierWorkBudget = e.resetFrontierWorkBudget

section

variable (h : SameButWork e e')
include h

theorem SameButWork.dependencies : e'.dependencies = e.dependencies :=
  congrArg (fun e => e.dependencies) h

theorem SameButWork.dependents : e'.dependents = e.dependents :=
  congrArg (fun e => e.dependents) h

theorem SameButWork.setDependencies (id : String) (dependsOn : List String) :
    e'.setDependencies id dependsOn = e.setDependencies id dependsOn :=
  congrArg (fun e => e.setDependencies id dependsOn) h

theorem SameButWork.frontier (nodeId : String) : e'.frontier nodeId = e.frontier nodeId :=
  congrArg (fun e => e.frontier nodeId) h

theorem SameButWork.addNode (id : String) (dependsOn : List String) :
    SameButWork (e.addNode id dependsOn).1 (e'.addNode id dependsOn).1 := by
  unfold IncrementalFrontierEngine.addNode
  rw [h.dependencies, h.setDependencies]
  cases assertId id "node id" with
  | error err => exact h
  | ok u =>
    split_ifs
    · exact h
    · rfl

/-- Every operation but `addNode` and `restoreTrust` starts by resetting the budget. -/
theorem SameButWork.call (c : EngineCall) : SameButWork (e.call c) (e'.call c) := by
  cases c with
  | op op =>
    cases op with
    | addNode id dependsOn => exact h.addNode id dependsOn
    | setDependencies id dependsOn =>
      have := congrArg Prod.fst (h.setDependencies id dependsOn)
      exact congrArg resetFrontierWorkBudget this
    | removeNode id => exact congrArg (fun e => (e.removeNode id).1.resetFrontierWorkBudget) h
    | markDirty nodeIds status =>
      exact congrArg (fun e => (e.markDirty nodeIds status).1.resetFrontierWorkBudget) h
    | replaceStatus nodeId status =>
      exact congrArg (fun e => (e.replaceStatus nodeId status).1.resetFrontierWorkBudget) h
    | resolve nodeId => exact congrArg (fun e => (e.resolve nodeId).1.resetFrontierWorkBudget) h
    | restoreStates states =>
      exact congrArg (fun e => (e.restoreStates states).1.resetFrontierWorkBudget) h
    | frontier nodeId =>
      exact congrArg (fun p => p.1.resetFrontierWorkBudget) (h.frontier nodeId)
  | markUnknown => exact congrArg (fun e => e.markUnknown.resetFrontierWorkBudget) h
  | restoreTrust => exact congrArg restoreTrust h

theorem SameButWork.calls (later : List EngineCall) : SameButWork (later.foldl IncrementalFrontierEngine.call e)
      (later.foldl IncrementalFrontierEngine.call e') := by
  induction later generalizing e e' with
  | nil => exact h
  | cons c later ih => exact ih (h.call c)

theorem SameButWork.unchanged : Unchanged e e' where
  nodes := fun n => by rw [h.dependencies]
  dependsOn := fun n d => by rw [DependsOn, DependsOn, h.dependencies]
  edges := fun d n => by rw [Edge, Edge, h.dependents]
  answers := fun later nodeId => congrArg Prod.snd ((h.calls later).frontier nodeId)

end

theorem accepts_eq_true {d : String} : m.accepts d = true ↔ d ≠ "" ∧ d ≠ m.id := by
  simp [GraphMutation.accepts]

theorem addMissingNodes_cons_accepted {d : String} (h : m.accepts d = true) (rest : List String)
    (g : Adjacency) : addMissingNodes m.id (d :: rest) g =
      addMissingNodes m.id rest (if g.has d then g else g.set d ∅) := by
  obtain ⟨hnamed, hother⟩ := accepts_eq_true.mp h
  rw [addMissingNodes, assertId, if_neg hnamed]
  exact if_neg hother

theorem addMissingNodes_cons_refused {d : String} (h : ¬ m.accepts d = true) (rest : List String)
    (g : Adjacency) : ∃ err, addMissingNodes m.id (d :: rest) g = (g, .error err) := by
  rw [accepts_eq_true, not_and_or, not_not, not_not] at h
  by_cases hnamed : d = ""
  · exact ⟨_, by rw [addMissingNodes, assertId, if_pos hnamed]⟩
  · refine ⟨cycleError m.id, ?_⟩
    rw [addMissingNodes, assertId, if_neg hnamed]
    exact if_pos (h.resolve_left hnamed)

theorem mem_keys_addMissingNodes (next : List String) (g : Adjacency) (n : String) :
    n ∈ (addMissingNodes m.id next g).1.keys ↔ n ∈ g.keys ∨ n ∈ next.takeWhile m.accepts := by
  induction next generalizing g with
  | nil => simp [addMissingNodes]
  | cons d rest ih =>
    by_cases hd : m.accepts d = true
    · rw [addMissingNodes_cons_accepted hd, ih, mem_keys_addMissing, List.takeWhile_cons_of_pos hd, List.mem_cons]
      tauto
    · obtain ⟨err, herr⟩ := addMissingNodes_cons_refused hd rest g
      rw [herr, List.takeWhile_cons_of_neg hd]
      simp

theorem addMissingNodes_known {next : List String} {g : Adjacency}
    (h : ∀ d ∈ next.takeWhile m.accepts, d ∈ g.keys) : (addMissingNodes m.id next g).1 = g := by
  induction next with
  | nil => rfl
  | cons d rest ih =>
    by_cases hd : m.accepts d = true
    · rw [List.takeWhile_cons_of_pos hd] at h
      have hhas : g.has d = true := g.has_eq_true.mpr (h d (List.mem_cons_self ..))
      rw [addMissingNodes_cons_accepted hd, if_pos hhas]
      exact ih fun x hx => h x (List.mem_cons_of_mem d hx)
    · obtain ⟨err, herr⟩ := addMissingNodes_cons_refused hd rest g
      rw [herr]

theorem addMissingNodes_ok_iff (next : List String) (g : Adjacency) :
    (addMissingNodes m.id next g).2 = .ok () ↔ ∀ d ∈ next, m.accepts d = true := by
  induction next generalizing g with
  | nil => simp [addMissingNodes]
  | cons d rest ih =>
    by_cases hd : m.accepts d = true
    · rw [addMissingNodes_cons_accepted hd, ih, List.forall_mem_cons]
      exact (and_iff_right hd).symm
    · obtain ⟨err, herr⟩ := addMissingNodes_cons_refused hd rest g
      rw [herr, List.forall_mem_cons]
      exact iff_of_false (by simp) fun h => hd h.1

/-! ## Mutations that throw -/

theorem addNode_of_named {id : String} {dependsOn : List String} (hid : id ≠ "")
    (hnew : id ∉ e.dependencies.keys) : e.addNode id dependsOn = e.setDependencies id dependsOn := by
  rw [addNode, assertId, if_neg hid]
  exact if_neg fun h => hnew (e.dependencies.has_eq_true.mp h)

theorem mutate_eq (hid : m.id ≠ "") (hnew : ¬ e.AddsExisting m) :
    e.mutate m = e.setDependencies m.id m.dependsOn := by
  cases m with
  | addNode id dependsOn => exact addNode_of_named hid hnew
  | setDependencies id dependsOn => rfl

/-- A mutation without a name, or of a node that exists, changes nothing and throws. -/
theorem mutate_refused (h : m.id = "" ∨ e.AddsExisting m) : SameButWork e (e.mutate m).1 := by
  cases m with
  | addNode id dependsOn =>
    show SameButWork e (e.addNode id dependsOn).1
    by_cases hid : id = ""
    · rw [addNode, assertId, if_pos hid]
      rfl
    · have hhas : e.dependencies.has id = true :=
        e.dependencies.has_eq_true.mpr (h.resolve_left hid)
      rw [addNode, assertId, if_neg hid]
      rw [if_pos hhas]
      rfl
  | setDependencies id dependsOn =>
    show SameButWork e (e.setDependencies id dependsOn).1
    have hid : id = "" := h.resolve_right (fun h => h)
    rw [setDependencies, assertId, if_pos hid]
    rfl

theorem setDependencies_refused (hid : m.id ≠ "") (h : ¬ ∀ d ∈ m.dependsOn, m.accepts d = true) :
    (∃ err, (e.setDependencies m.id m.dependsOn).2 = .error err) ∧
      (e.setDependencies m.id m.dependsOn).1 = { e.resetFrontierWorkBudget with
        dependencies := (addMissingNodes m.id (unique m.dependsOn) e.dependencies).1 } := by
  have hbad : ¬ (addMissingNodes m.id (unique m.dependsOn) e.dependencies).2 = .ok () := by
    rw [addMissingNodes_ok_iff]
    exact fun hall => h (fun d hd => hall d (mem_unique.mpr hd))
  unfold setDependencies
  rw [assertId, if_neg hid]
  dsimp only
  change ¬ (addMissingNodes m.id (unique m.dependsOn) e.resetFrontierWorkBudget.dependencies).2 = .ok () at hbad
  show _ ∧ _ = { e.resetFrontierWorkBudget with
    dependencies := (addMissingNodes m.id (unique m.dependsOn)
      e.resetFrontierWorkBudget.dependencies).1 }
  generalize addMissingNodes m.id (unique m.dependsOn) e.resetFrontierWorkBudget.dependencies = p
    at hbad ⊢
  obtain ⟨g, err | u⟩ := p
  · exact ⟨⟨err, rfl⟩, rfl⟩
  · exact absurd rfl hbad

/-- The graph whose cycles `setDependencies` looks for. -/
def requestedGraph (e : IncrementalFrontierEngine) (m : GraphMutation) : Adjacency :=
  (addMissingNodes m.id (unique m.dependsOn) e.dependencies).1.set m.id
    (OrderedSet.ofList (unique m.dependsOn))

theorem dep_requestedGraph (n d : String) : (e.requestedGraph m).Dep n d ↔ e.Requested m n d := by
  obtain ⟨hadded, -⟩ := addMissingNodes_spec m.id (unique m.dependsOn) e.dependencies
  unfold requestedGraph Dep Requested
  rw [neighbours_set]
  split_ifs with hn
  · have hmem : d ∈ (OrderedSet.ofList (unique m.dependsOn)).elems ↔ d ∈ m.dependsOn :=
      OrderedSet.mem_ofList.trans mem_unique
    simp [hn, hmem]
  · rw [hadded.neighbours_eq]
    simp only [hn, false_and, ne_eq, not_false_eq_true, true_and, false_or]
    rfl

theorem setDependencies_accepted (hid : m.id ≠ "") (h : ∀ d ∈ m.dependsOn, m.accepts d = true) :
    (∃ err, assertAcyclic (e.requestedGraph m) m.id = .error err ∧
      e.setDependencies m.id m.dependsOn = (e.resetFrontierWorkBudget, .error err)) ∨
    (assertAcyclic (e.requestedGraph m) m.id = .ok () ∧
      (e.setDependencies m.id m.dependsOn).2 = .ok ()) := by
  have hok : (addMissingNodes m.id (unique m.dependsOn) e.resetFrontierWorkBudget.dependencies).2 = .ok () :=
    (addMissingNodes_ok_iff _ _).mpr (fun d hd => h d (mem_unique.mp hd))
  unfold setDependencies
  rw [assertId, if_neg hid]
  dsimp only
  show (∃ err, assertAcyclic ((addMissingNodes m.id (unique m.dependsOn)
      e.resetFrontierWorkBudget.dependencies).1.set m.id _) m.id = .error err ∧ _) ∨
    assertAcyclic ((addMissingNodes m.id (unique m.dependsOn)
      e.resetFrontierWorkBudget.dependencies).1.set m.id _) m.id = .ok () ∧ _
  generalize addMissingNodes m.id (unique m.dependsOn) e.resetFrontierWorkBudget.dependencies = p
    at hok ⊢
  obtain ⟨g, res⟩ := p
  obtain rfl : res = .ok () := hok
  dsimp only
  cases assertAcyclic (OrderedMap.set g m.id (OrderedSet.ofList (unique m.dependsOn))) m.id with
  | error err => exact .inl ⟨err, rfl, rfl⟩
  | ok u => exact .inr ⟨rfl, rfl⟩

theorem assertAcyclic_requested (hg : e.GraphInv) :
    (∃ err, assertAcyclic (e.requestedGraph m) m.id = .error err) ↔ e.ClosesCycle m := by
  have hdep : (e.requestedGraph m).Dep = e.Requested m := by
    funext n d
    exact propext (dep_requestedGraph n d)
  constructor
  · rintro ⟨err, herr⟩
    have hcycle := assertAcyclic_error herr
    rwa [hdep] at hcycle
  · rintro ⟨n, hn⟩
    cases hcheck : assertAcyclic (e.requestedGraph m) m.id with
    | error err => exact ⟨err, rfl⟩
    | ok u =>
      have hacc := assertAcyclic_sound hcheck
      rw [hdep] at hacc
      have hwf := wellFounded_update hg.acyclic m.id hacc (fun n hne d hd =>
        (hd.resolve_left (fun h => hne h.1)).2)
      exact absurd hn (not_transGen_self hwf n)

theorem throws_iff_closesCycle (hg : e.GraphInv) (hm : e.WellFormed m) : e.Throws m ↔ e.ClosesCycle m := by
  unfold Throws
  rw [mutate_eq hm.named hm.fresh]
  by_cases hself : m.id ∈ m.dependsOn
  · have hrefused : ¬ ∀ d ∈ m.dependsOn, m.accepts d = true :=
      fun h => (accepts_eq_true.mp (h m.id hself)).2 rfl
    exact iff_of_true (setDependencies_refused hm.named hrefused).1 ⟨m.id, TransGen.single (Or.inl ⟨rfl, hself⟩)⟩
  · have haccepted : ∀ d ∈ m.dependsOn, m.accepts d = true := fun d hd =>
      accepts_eq_true.mpr ⟨hm.dependencies_named d hd, fun he => hself (he ▸ hd)⟩
    rw [← assertAcyclic_requested hg]
    rcases setDependencies_accepted hm.named haccepted with ⟨err, hcheck, heq⟩ | ⟨hcheck, hok⟩
    · rw [heq]
      exact iff_of_true ⟨err, rfl⟩ ⟨err, hcheck⟩
    · rw [hok, hcheck]

theorem unchanged_of_meetsNoNewNode (h : e.MeetsNoNewNode m) (hthrows : e.Throws m) : Unchanged e (e.mutate m).1 := by
  by_cases hrefused : m.id = "" ∨ e.AddsExisting m
  · exact (mutate_refused hrefused).unchanged
  · obtain ⟨hid, hnew⟩ := not_or.mp hrefused
    unfold Throws at hthrows
    rw [mutate_eq hid hnew] at hthrows ⊢
    refine SameButWork.unchanged ?_
    by_cases haccepted : ∀ d ∈ m.dependsOn, m.accepts d = true
    · rcases setDependencies_accepted hid haccepted with ⟨err, -, heq⟩ | ⟨-, hok⟩
      · rw [heq]
        rfl
      · obtain ⟨err, herr⟩ := hthrows
        rw [hok] at herr
        cases herr
    · have hknown := ((h.resolve_left hid).resolve_left hnew).resolve_left haccepted
      rw [(setDependencies_refused hid haccepted).2, addMissingNodes_known hknown]
      rfl

theorem meetsNoNewNode_of_unchanged (h : e.Throws m → Unchanged e (e.mutate m).1) : e.MeetsNoNewNode m := by
  by_cases hrefused : m.id = "" ∨ e.AddsExisting m
  · exact hrefused.elim Or.inl fun hexists => Or.inr (Or.inl hexists)
  · obtain ⟨hid, hnew⟩ := not_or.mp hrefused
    unfold Throws at h
    rw [mutate_eq hid hnew] at h
    by_cases haccepted : ∀ d ∈ m.dependsOn, m.accepts d = true
    · exact .inr (Or.inr (Or.inl haccepted))
    · obtain ⟨hthrows, heq⟩ := setDependencies_refused (e := e) hid haccepted
      have hnodes := (h hthrows).nodes
      rw [heq] at hnodes
      exact .inr (Or.inr (Or.inr (fun d hd =>
        (hnodes d).mp ((mem_keys_addMissingNodes _ _ d).mpr (Or.inr hd)))))

/-! ## The graph along runs -/

def KeepsGraph (e e' : IncrementalFrontierEngine) : Prop :=
  e'.dependencies = e.dependencies ∧ e'.dependents = e.dependents

theorem KeepsGraph.graphInv (h : KeepsGraph e e') (hg : e.GraphInv) : e'.GraphInv :=
  hg.congr h.1 h.2

theorem markDirty_keepsGraph (e : IncrementalFrontierEngine) (nodeIds : List String)
    (status : FrontierStatus) : KeepsGraph e (e.markDirty nodeIds status).1 := by
  unfold markDirty
  dsimp only
  split_ifs
  · exact ⟨rfl, rfl⟩
  all_goals cases e.resetFrontierWorkBudget.checkKnown (unique nodeIds) with
    | error err => exact ⟨rfl, rfl⟩
    | ok u => ?_
  · exact (affectedFromRoots_maintained { e.resetFrontierWorkBudget with
      generation := e.resetFrontierWorkBudget.generation + 1 } (unique nodeIds)).1
  · dsimp only
    have hrecord := recordDirect_maintained status (unique nodeIds) { e.resetFrontierWorkBudget with
      generation := e.resetFrontierWorkBudget.generation + 1 }
    generalize recordDirect status (unique nodeIds) { e.resetFrontierWorkBudget with
      generation := e.resetFrontierWorkBudget.generation + 1 } = e1 at hrecord ⊢
    have hpropagate := propagateDirty_maintained e1
      ((unique nodeIds).map (fun id => (id, (e1.directDirty.get? id).getD .fresh)))
    have hall : Maintained e _ := Maintained.trans hrecord hpropagate
    exact hall.1

theorem replaceStatus_keepsGraph (e : IncrementalFrontierEngine) (nodeId : String)
    (status : FrontierStatus) : KeepsGraph e (e.replaceStatus nodeId status).1 := by
  unfold replaceStatus
  cases assertId nodeId "node id" with
  | error err => exact ⟨rfl, rfl⟩
  | ok u =>
    dsimp only
    split_ifs
    · exact ⟨rfl, rfl⟩
    all_goals exact (rebuildDirtyState_maintained { e.resetFrontierWorkBudget with
        directDirty := _
        generation := _ }).1

theorem resolve_keepsGraph (e : IncrementalFrontierEngine) (nodeId : String) : KeepsGraph e (e.resolve nodeId).1 := by
  unfold resolve
  cases assertId nodeId "node id" with
  | error err => exact ⟨rfl, rfl⟩
  | ok u =>
    dsimp only
    by_cases hunknown : (!e.resetFrontierWorkBudget.dependencies.has nodeId) = true
    · rw [if_pos hunknown]
      exact ⟨rfl, rfl⟩
    · rw [if_neg hunknown]
      split
      · exact ⟨rfl, rfl⟩
      · exact ⟨rfl, rfl⟩
      · split_ifs
        · exact ⟨rfl, rfl⟩
        · exact ⟨rfl, rfl⟩

theorem restoreStates_keepsGraph (e : IncrementalFrontierEngine)
    (states : List (String × FrontierStatus)) : KeepsGraph e (e.restoreStates states).1 := by
  unfold restoreStates
  dsimp only
  split
  · exact ⟨rfl, rfl⟩
  · split
    · exact ⟨rfl, rfl⟩
    · exact (rebuildDirtyState_maintained { e.resetFrontierWorkBudget with
        directDirty := _
        generation := _
        frontierBudgetExceeded := _
        trustRecoveryRequired := _
        trusted := _ }).1

theorem foldStatus_keepsGraph (l : List (String × FrontierStatus)) (status : FrontierStatus)
    (e : IncrementalFrontierEngine) : KeepsGraph e (foldStatus l status e).1 := by
  induction l generalizing status e with
  | nil => exact ⟨rfl, rfl⟩
  | cons p l ih =>
    obtain ⟨root, value⟩ := p
    rw [foldStatus]
    have hcount := (count_maintained e).1
    have hrest := fun status => ih status e.count
    split_ifs
    all_goals exact ⟨(hrest _).1.trans hcount.1, (hrest _).2.trans hcount.2⟩

theorem answerFrontier_keepsGraph (e : IncrementalFrontierEngine) (nodeId : String) :
    KeepsGraph e (e.answerFrontier nodeId).1 := by
  unfold answerFrontier
  have hcompact := (compactResolvedRoots_maintained e nodeId).1
  generalize e.compactResolvedRoots nodeId = p at hcompact ⊢
  obtain ⟨e1, changed⟩ := p
  dsimp only at hcompact ⊢
  split_ifs
  · exact ⟨rfl, rfl⟩
  · exact hcompact
  · have hread := (count_maintained e1).1
    have hfold := foldStatus_keepsGraph ((e1.activeDirtyRoots.get? nodeId).getD ∅).entries .fresh e1.count
    generalize foldStatus ((e1.activeDirtyRoots.get? nodeId).getD ∅).entries .fresh e1.count = p
      at hfold ⊢
    obtain ⟨e2, status⟩ := p
    have hlast := (count_maintained e2).1
    exact ⟨hlast.1.trans (hfold.1.trans (hread.1.trans hcompact.1)),
      hlast.2.trans (hfold.2.trans (hread.2.trans hcompact.2))⟩

theorem frontier_keepsGraph (e : IncrementalFrontierEngine) (nodeId : String) : KeepsGraph e (e.frontier nodeId).1 := by
  have hanswer := answerFrontier_keepsGraph e.resetFrontierWorkBudget nodeId
  unfold IncrementalFrontierEngine.frontier
  cases assertId nodeId "node id" with
  | error err => exact ⟨rfl, rfl⟩
  | ok u =>
    dsimp only
    split_ifs
    · exact ⟨rfl, rfl⟩
    · split
      · split_ifs
        · exact ⟨rfl, rfl⟩
        · exact hanswer
      · exact hanswer

theorem rebuilt_graphInv (hg : e.GraphInv) : e.rebuildDirtyState.invalidateAllCaches.GraphInv :=
  hg.congr (rebuildDirtyState_maintained e).1.1 (rebuildDirtyState_maintained e).1.2

theorem setDependencies_graphInv (hg : e.GraphInv) (id : String) (dependsOn : List String) :
    (e.setDependencies id dependsOn).1.GraphInv := by
  have hg0 : e.resetFrontierWorkBudget.GraphInv := hg.congr rfl rfl
  unfold setDependencies
  generalize e.resetFrontierWorkBudget = e₀ at hg0 ⊢
  cases hid : assertId id "node id" with
  | error err => exact hg0
  | ok u =>
    dsimp only
    obtain ⟨hadded, hall⟩ := addMissingNodes_spec id (unique dependsOn) e₀.dependencies
    generalize addMissingNodes id (unique dependsOn) e₀.dependencies = p at hadded hall ⊢
    obtain ⟨g, err | u⟩ := p
    · exact hg0.addedNodes hadded
    · dsimp only at hadded hall ⊢
      cases hacyc : assertAcyclic (OrderedMap.set g id (OrderedSet.ofList (unique dependsOn))) id with
      | error err => exact hg0
      | ok u =>
        have hnext := setDependencies_graph hg0 hadded (fun d hd => (hall rfl d hd).1)
          (assertId_ok hid) hacyc
        exact rebuilt_graphInv (hnext.congr rfl rfl)

theorem addNode_graphInv (hg : e.GraphInv) (id : String) (dependsOn : List String) :
    (e.addNode id dependsOn).1.GraphInv := by
  unfold IncrementalFrontierEngine.addNode
  cases assertId id "node id" with
  | error err => exact hg
  | ok u =>
    split_ifs
    · exact hg
    · exact setDependencies_graphInv hg id dependsOn

theorem removeNode_graphInv (hg : e.GraphInv) (id : String) : (e.removeNode id).1.GraphInv := by
  have hg0 : e.resetFrontierWorkBudget.GraphInv := hg.congr rfl rfl
  unfold removeNode
  generalize e.resetFrontierWorkBudget = e₀ at hg0 ⊢
  cases assertId id "node id" with
  | error err => exact hg0
  | ok u =>
    dsimp only
    split_ifs with hhas hdependents
    · exact hg0
    · exact hg0
    · have hnone : ((e₀.dependents.get? id).getD ∅).size = 0 := by omega
      exact rebuilt_graphInv ((removeNode_graph hg0 hnone).congr rfl rfl)

theorem call_graphInv (hg : e.GraphInv) (c : EngineCall) : (e.call c).GraphInv := by
  cases c with
  | op op =>
    cases op with
    | addNode id dependsOn => exact addNode_graphInv hg id dependsOn
    | setDependencies id dependsOn => exact setDependencies_graphInv hg id dependsOn
    | removeNode id => exact removeNode_graphInv hg id
    | markDirty nodeIds status => exact (markDirty_keepsGraph e nodeIds status).graphInv hg
    | replaceStatus nodeId status => exact (replaceStatus_keepsGraph e nodeId status).graphInv hg
    | resolve nodeId => exact (resolve_keepsGraph e nodeId).graphInv hg
    | restoreStates states => exact (restoreStates_keepsGraph e states).graphInv hg
    | frontier nodeId => exact (frontier_keepsGraph e nodeId).graphInv hg
  | markUnknown | restoreTrust => exact hg.congr rfl rfl

theorem engine_graphInv {maxWork : Nat} (h : (engine maxWork).Reachable e) : e.GraphInv := by
  refine h.invariant GraphInv (fun e hinit => ?_) (fun e c e' hg hstep => ?_)
  · obtain ⟨nodes, hcreate⟩ := hinit
    exact (create_settled hcreate).graph
  · obtain rfl : e' = e.call c := hstep
    exact call_graphInv hg c

/-- In every reachable state, a graph mutation is atomic exactly when it meets no new node before a
    dependency that it refuses. -/
theorem mutatesAtomically_iff {maxWork : Nat} (h : (engine maxWork).Reachable e)
    (m : GraphMutation) : e.MutatesAtomically m ↔ e.MeetsNoNewNode m :=
  ⟨fun hatomic => meetsNoNewNode_of_unchanged hatomic.unchanged,
    fun hmeets => ⟨unchanged_of_meetsNoNewNode hmeets, throws_iff_closesCycle (engine_graphInv h)⟩⟩

theorem mutatesAtomically_iff_cycle : ∃ e, (engine 100).Reachable e ∧
    (e.MutatesAtomically (.setDependencies "a" ["b"]) ↔
      e.MeetsNoNewNode (.setDependencies "a" ["b"])) ∧ e.Throws (.setDependencies "a" ["b"]) := by
  have hcreate : ∃ e, create 100 [⟨"a", []⟩, ⟨"b", ["a"]⟩] = .ok e ∧
      (e.setDependencies "a" ["b"]).2 = .error (cycleError "a") := ⟨_, rfl, rfl⟩
  obtain ⟨e, he, hthrows⟩ := hcreate
  exact ⟨e, .init ⟨_, he⟩, mutatesAtomically_iff (.init ⟨_, he⟩) _, _, hthrows⟩

/-- The new node `b` stays in the graph although the empty id after it is refused. -/
theorem refused_mutation_adds_node : ¬ ∀ (maxWork : Nat) (e : IncrementalFrontierEngine),
    (engine maxWork).Reachable e → ∀ m, e.MutatesAtomically m := by
  intro hall
  have hcreate : ∃ e, create 100 [⟨"a", []⟩] = .ok e ∧
      (e.setDependencies "a" ["b", ""]).2 =
        .error (.typeError "dependency id must be a non-empty string") ∧
      "b" ∈ (e.setDependencies "a" ["b", ""]).1.dependencies.keys ∧ "b" ∉ e.dependencies.keys :=
    ⟨_, rfl, rfl, by decide, by decide⟩
  obtain ⟨e, he, hthrows, hafter, hbefore⟩ := hcreate
  have hatomic := hall 100 e (.init ⟨_, he⟩) (.setDependencies "a" ["b", ""])
  exact hbefore ((hatomic.unchanged ⟨_, hthrows⟩).nodes "b" |>.mp hafter)

end IncrementalFrontierEngine

end Premise.FrontierEngine
