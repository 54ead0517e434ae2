import Premise.Reference.GraphCalls
import Premise.Reference.Proofs.GraphProofs

/-!
# Proofs: calls on the dependency graph

The invariant of the two maps is kept by every call, and says what the searches and the order return. A call throws
exactly when it cannot be carried out, but it adds its node before it finds that out.
-/

namespace Premise.Reference

open Collections Premise.Graph Js FrontierEngine FrontierEngine.Adjacency Relation

namespace DependencyGraph

namespace Call

def nodeId : Call → String
  | .addNode nodeId => nodeId
  | .addDependency nodeId _ => nodeId
  | .setDependencies nodeId _ => nodeId

def dependencyIds : Call → List String
  | .addNode _ => []
  | .addDependency _ dependencyId => [dependencyId]
  | .setDependencies _ dependencyIds => dependencyIds

/-- The edges of the graph in which the call is carried out. -/
def Result (g : DependencyGraph) : Call → String → String → Prop
  | .addNode _, n, d => g.Dep n d
  | .addDependency nodeId dependencyId, n, d => g.Dep n d ∨ (n = nodeId ∧ d = dependencyId)
  | .setDependencies nodeId dependencyIds, n, d => if n = nodeId then d ∈ dependencyIds else g.Dep n d

end Call

/-- Some node depends on itself, directly or through others. -/
def Cyclic (dep : String → String → Prop) : Prop := ∃ n, TransGen dep n n

def Throws (g : DependencyGraph) (call : Call) : Prop := ∃ err, (g.perform call).2 = .error err

/-- The same nodes and the same edges. -/
structure Unchanged (g g' : DependencyGraph) : Prop where
  nodes : ∀ n, g'.hasNode n = g.hasNode n
  edges : ∀ n d, g'.Dep n d ↔ g.Dep n d

/-- The order is a dependency order of the nodes, and no other one is smaller. -/
structure SmallestOrder (g : DependencyGraph) (order : List String) : Prop where
  dependencies : DependencyOrder (fun n => g.hasNode n = true) g.Dep order
  smallest : ∀ other, DependencyOrder (fun n => g.hasNode n = true) g.Dep other → LexLe UnitsLe order other

/-- What a graph promises about a call, and about the graph that the call leaves. -/
structure Correct (g : DependencyGraph) (call : Call) : Prop where
  transposed : ∀ n d, d ∈ (g.perform call).1.dependenciesOf n ↔ n ∈ (g.perform call).1.dependentsOf d
  acyclic : ¬ Cyclic (g.perform call).1.Dep
  throws : g.Throws call ↔ call.nodeId = "" ∨ "" ∈ call.dependencyIds ∨ Cyclic (call.Result g)
  unchanged : g.Throws call → Unchanged g (g.perform call).1
  performed : ¬ g.Throws call → ∀ n d, (g.perform call).1.Dep n d ↔ call.Result g n d
  reachable : ∀ n d, d ∈ (g.perform call).1.reachableDependents n ↔ TransGen (g.perform call).1.Dep d n
  ordered : ∃ order, (g.perform call).1.topologicalOrder = .ok order ∧ SmallestOrder (g.perform call).1 order

/-- The node of the call is a node already, or no node at all, or its dependencies are other nodes. -/
def Settled (g : DependencyGraph) (call : Call) : Prop :=
  call.nodeId = "" ∨ g.hasNode call.nodeId = true ∨ ∀ d ∈ call.dependencyIds, d ≠ "" ∧ d ≠ call.nodeId

variable {g : DependencyGraph} {nodeId dependencyId : String} {dependencyIds : List String}

theorem not_cyclic_of_wellFounded {dep : String → String → Prop} (h : WellFounded (fun d n => dep n d)) :
    ¬ Cyclic dep := fun ⟨n, hn⟩ => not_transGen_self h n hn

theorem GraphInv.known_of_reaches (h : GraphInv g) {d : String} (hreach : g.Reaches d nodeId) (hd : d ≠ nodeId) :
    g.dependencies.has nodeId = true := by
  obtain hrefl | ⟨n, -, hlast⟩ := ReflTransGen.cases_tail hreach
  · exact absurd hrefl.symm hd
  · exact g.dependencies.has_eq_true.mpr (h.known n nodeId hlast)

theorem cyclic_iff (h : GraphInv g) {dep : String → String → Prop}
    (hdependencies : ∀ n d, dep n d ↔ if n = nodeId then d ∈ dependencyIds else g.Dep n d) :
    Cyclic dep ↔ ∃ d ∈ dependencyIds, g.Reaches d nodeId := by
  constructor
  · intro hcyclic
    by_contra hnone
    refine not_cyclic_of_wellFounded (wellFounded_linked h hdependencies (fun d hd hreach => ?_)) hcyclic
    exact hnone ⟨d, hd, hreach⟩
  · rintro ⟨d, hd, hreach⟩
    -- Up to where the path meets the node first, it is a path of the new edges.
    have hpath : ∀ a, g.Reaches a nodeId → ReflTransGen dep a nodeId := by
      intro a hreach
      induction hreach using ReflTransGen.head_induction_on with
      | refl => exact .refl
      | @head a b hab _ ih =>
        by_cases ha : a = nodeId
        · rw [ha]
        · exact .head ((hdependencies a b).mpr (by rwa [if_neg ha])) ih
    exact ⟨nodeId, TransGen.head' ((hdependencies nodeId d).mpr (by rwa [if_pos rfl])) (hpath d hreach)⟩

theorem SameEdges.dep {g' : DependencyGraph} (h : SameEdges g g') (n d : String) : g'.Dep n d ↔ g.Dep n d := by
  unfold Dep
  rw [h.dependencies]

theorem SameEdges.reaches {g' : DependencyGraph} (h : SameEdges g g') (n d : String) : g'.Reaches n d ↔ g.Reaches n d := by
  have hdep : g'.Dep = g.Dep := funext fun n => funext fun d => propext (h.dep n d)
  unfold Reaches
  rw [hdep]

theorem dep_or_new_iff (g : DependencyGraph) (nodeId dependencyId n d : String) :
    (g.Dep n d ∨ (n = nodeId ∧ d = dependencyId)) ↔
      if n = nodeId then d ∈ dependencyId :: g.dependencies.neighbours nodeId else g.Dep n d := by
  split_ifs with hn
  · rw [hn, List.mem_cons]
    exact ⟨fun hd => hd.symm.imp_left (fun hd => hd.2), fun hd => hd.symm.imp_right (fun hd => ⟨rfl, hd⟩)⟩
  · exact or_iff_left fun hd => hn hd.1

theorem GraphInv.not_reaches (h : GraphInv g) {d : String} (hd : g.Dep nodeId d) : ¬ g.Reaches d nodeId :=
  fun hreach => not_transGen_self h.acyclic nodeId (TransGen.head' hd hreach)

theorem cyclic_result_iff (h : GraphInv g) (call : Call) :
    Cyclic (call.Result g) ↔ ∃ d ∈ call.dependencyIds, g.Reaches d call.nodeId := by
  cases call with
  | addNode nodeId =>
    refine iff_of_false (not_cyclic_of_wellFounded h.acyclic) ?_
    rintro ⟨d, hd, -⟩
    exact List.not_mem_nil hd
  | setDependencies nodeId dependencyIds => exact cyclic_iff h (fun n d => Iff.rfl)
  | addDependency nodeId dependencyId =>
    rw [show Cyclic ((Call.addDependency nodeId dependencyId).Result g) ↔ _ from
      cyclic_iff h (dep_or_new_iff g nodeId dependencyId)]
    constructor
    · rintro ⟨d, hd, hreach⟩
      rcases List.mem_cons.mp hd with rfl | hd
      · exact ⟨d, List.mem_singleton_self d, hreach⟩
      · exact absurd hreach (h.not_reaches hd)
    · rintro ⟨d, hd, hreach⟩
      exact ⟨d, List.mem_cons.mpr (Or.inl (List.mem_singleton.mp hd)), hreach⟩

theorem addNode_of_ne (g : DependencyGraph) (hnode : nodeId ≠ "") : g.addNode nodeId = .ok (g.ensureNode nodeId) :=
  if_neg hnode

theorem addNode_empty (g : DependencyGraph) : g.addNode "" = .error (.typeError "nodeId must be non-empty") := rfl

theorem hasNode_ensureNode (g : DependencyGraph) (nodeId n : String) :
    (g.ensureNode nodeId).hasNode n = true ↔ n = nodeId ∨ g.hasNode n = true := by
  unfold hasNode
  rw [OrderedMap.has_eq_true, OrderedMap.has_eq_true, keys_ensureNode]

def ensureNodes (g : DependencyGraph) (nodeId dependencyId : String) : DependencyGraph :=
  (g.ensureNode nodeId).ensureNode dependencyId

theorem sameEdges_ensureNodes (g : DependencyGraph) (nodeId dependencyId : String) :
    SameEdges g (g.ensureNodes nodeId dependencyId) where
  dependencies n := ((sameEdges_ensureNode _ dependencyId).dependencies n).trans
    ((sameEdges_ensureNode g nodeId).dependencies n)
  dependents n := ((sameEdges_ensureNode _ dependencyId).dependents n).trans ((sameEdges_ensureNode g nodeId).dependents n)

theorem GraphInv.ensureNodes (h : GraphInv g) (nodeId dependencyId : String) :
    GraphInv (g.ensureNodes nodeId dependencyId) :=
  (h.ensureNode nodeId).ensureNode dependencyId

theorem mem_keys_ensureNodes (g : DependencyGraph) (nodeId dependencyId n : String) :
    n ∈ (g.ensureNodes nodeId dependencyId).dependencies.keys ↔
      n = dependencyId ∨ n = nodeId ∨ n ∈ g.dependencies.keys := by
  unfold DependencyGraph.ensureNodes
  rw [keys_ensureNode, keys_ensureNode]

def withEdge (g : DependencyGraph) (nodeId dependencyId : String) : DependencyGraph :=
  ⟨g.dependencies.addEdge nodeId dependencyId, g.dependents.addEdge dependencyId nodeId⟩

theorem dep_withEdge (g : DependencyGraph) (nodeId dependencyId n d : String) :
    (g.withEdge nodeId dependencyId).Dep n d ↔ (n = nodeId ∧ d = dependencyId) ∨ g.Dep n d :=
  mem_neighbours_addEdge g.dependencies nodeId dependencyId n d

theorem GraphInv.withEdge (h : GraphInv g) (hnode : nodeId ∈ g.dependencies.keys)
    (hdependency : dependencyId ∈ g.dependencies.keys) (hreach : ¬ g.Reaches dependencyId nodeId) :
    GraphInv (g.withEdge nodeId dependencyId) where
  mirror n d := by
    have hmirror := h.mirror n d
    unfold DependencyGraph.withEdge
    rw [mem_neighbours_addEdge, mem_neighbours_addEdge, hmirror]
    exact or_congr_left and_comm
  known n d hd := by
    unfold DependencyGraph.withEdge addEdge
    rw [OrderedMap.mem_keys_set]
    obtain ⟨-, rfl⟩ | hd := (dep_withEdge g nodeId dependencyId n d).mp hd
    · exact .inr hdependency
    · exact .inr (h.known n d hd)
  acyclic := by
    have hedges : ∀ n d, (g.withEdge nodeId dependencyId).Dep n d ↔
        if n = nodeId then d ∈ dependencyId :: g.dependencies.neighbours nodeId else g.Dep n d := by
      intro n d
      rw [dep_withEdge, or_comm]
      exact dep_or_new_iff g nodeId dependencyId n d
    exact wellFounded_linked h hedges (List.forall_mem_cons.mpr ⟨hreach, fun d hd => h.not_reaches hd⟩)
  paired n hn := by
    unfold DependencyGraph.withEdge addEdge at hn ⊢
    rw [OrderedMap.mem_keys_set] at hn ⊢
    rcases hn with rfl | hn
    · exact .inr (h.paired n hnode)
    · exact .inr (h.paired n hn)

theorem closes_iff (h : GraphInv g) {g' : DependencyGraph} (hsame : SameEdges g g') :
    (nodeId = dependencyId ∨ (g.dependencies.has nodeId = true ∧ g'.hasPath dependencyId nodeId = true)) ↔
      g.Reaches dependencyId nodeId := by
  rw [hasPath_iff, hsame.reaches]
  constructor
  · rintro (rfl | ⟨-, hreach⟩)
    · exact .refl
    · exact hreach
  · intro hreach
    by_cases hne : nodeId = dependencyId
    · exact .inl hne
    · exact .inr ⟨h.known_of_reaches hreach (Ne.symm hne), hreach⟩

/-! ## What a call does -/

/-- The ways in which a call ends. -/
inductive Outcome (g : DependencyGraph) (call : Call) : Prop
  /-- There is no node to start with. -/
  | nameless (hnode : call.nodeId = "") (err : JsError) (h : g.perform call = (g, .error err))
  /-- The node is added, and no edge. -/
  | rejected (hnode : call.nodeId ≠ "") (hcause : "" ∈ call.dependencyIds ∨ Cyclic (call.Result g))
    (g' : DependencyGraph) (err : JsError) (h : g.perform call = (g', .error err)) (hinv : GraphInv g')
    (hedges : SameEdges g g') (hnodes : ∀ n, g'.hasNode n = true ↔ n = call.nodeId ∨ g.hasNode n = true)
  | done (hnode : call.nodeId ≠ "") (hempty : "" ∉ call.dependencyIds) (hcycle : ¬ Cyclic (call.Result g))
    (g' : DependencyGraph) (h : g.perform call = (g', .ok ())) (hinv : GraphInv g')
    (hedges : ∀ n d, g'.Dep n d ↔ call.Result g n d)

theorem outcome_addNode (h : GraphInv g) (nodeId : String) : Outcome g (.addNode nodeId) := by
  by_cases hnode : nodeId = ""
  · subst hnode
    exact .nameless rfl _ (by rw [perform, addNode_empty])
  · refine .done hnode List.not_mem_nil ?_ (g.ensureNode nodeId) ?_ (h.ensureNode nodeId)
      (sameEdges_ensureNode g nodeId).dep
    · exact not_cyclic_of_wellFounded h.acyclic
    · rw [perform, addNode_of_ne g hnode]

theorem outcome_addDependency (h : GraphInv g) (nodeId dependencyId : String) :
    Outcome g (.addDependency nodeId dependencyId) := by
  by_cases hnode : nodeId = ""
  · subst hnode
    exact .nameless rfl _ (by rw [perform, addDependency, addNode_empty])
  by_cases hdependency : dependencyId = ""
  · subst hdependency
    refine .rejected hnode (Or.inl (List.mem_singleton_self _)) (g.ensureNode nodeId)
      (.typeError "nodeId must be non-empty") ?_ (h.ensureNode nodeId) (sameEdges_ensureNode g nodeId)
      (hasNode_ensureNode g nodeId)
    rw [perform, addDependency, addNode_of_ne g hnode]
    dsimp only
    rw [addNode_empty]
  have hperform : g.perform (.addDependency nodeId dependencyId) =
      if nodeId = dependencyId ∨ (g.dependencies.has nodeId = true ∧
          (g.ensureNodes nodeId dependencyId).hasPath dependencyId nodeId = true) then
        (g.ensureNodes nodeId dependencyId, .error (dependencyCycleError nodeId dependencyId))
      else if dependencyId ∈ (g.ensureNodes nodeId dependencyId).dependencies.neighbours nodeId then
        (g.ensureNodes nodeId dependencyId, .ok ())
      else ((g.ensureNodes nodeId dependencyId).withEdge nodeId dependencyId, .ok ()) := by
    rw [perform, addDependency, addNode_of_ne g hnode]
    dsimp only
    rw [addNode_of_ne _ hdependency]
    rfl
  have hsame := sameEdges_ensureNodes g nodeId dependencyId
  have hinv := h.ensureNodes nodeId dependencyId
  have hcycle : Cyclic ((Call.addDependency nodeId dependencyId).Result g) ↔ g.Reaches dependencyId nodeId := by
    rw [cyclic_result_iff h]
    simp [Call.dependencyIds, Call.nodeId]
  by_cases hreach : g.Reaches dependencyId nodeId
  · refine .rejected hnode (Or.inr (hcycle.mpr hreach)) _ _ (hperform.trans (if_pos ((closes_iff h hsame).mpr hreach)))
      hinv hsame (fun n => ?_)
    unfold hasNode
    rw [OrderedMap.has_eq_true, OrderedMap.has_eq_true, mem_keys_ensureNodes]
    refine ⟨?_, Or.inr⟩
    rintro (rfl | hn)
    · obtain heq | ⟨d, hd, -⟩ := ReflTransGen.cases_head hreach
      · exact .inl heq
      · exact .inr (mem_keys_of_neighbour _ hd)
    · exact hn
  · have hempty : "" ∉ (Call.addDependency nodeId dependencyId).dependencyIds :=
      fun hmem => hdependency (List.mem_singleton.mp hmem).symm
    rw [if_neg (mt (closes_iff h hsame).mp hreach)] at hperform
    by_cases hmem : dependencyId ∈ (g.ensureNodes nodeId dependencyId).dependencies.neighbours nodeId
    · refine .done hnode hempty (mt hcycle.mp hreach) _ (hperform.trans (if_pos hmem)) hinv fun n d => ?_
      rw [hsame.dep]
      refine ⟨Or.inl, ?_⟩
      rintro (hd | ⟨rfl, rfl⟩)
      · exact hd
      · exact (hsame.dep _ _).mp hmem
    · refine .done hnode hempty (mt hcycle.mp hreach) _ (hperform.trans (if_neg hmem)) ?_ fun n d => ?_
      · refine hinv.withEdge ?_ ?_ fun hr => hreach ((hsame.reaches _ _).mp hr)
        · exact (mem_keys_ensureNodes g nodeId dependencyId nodeId).mpr (Or.inr (Or.inl rfl))
        · exact (mem_keys_ensureNodes g nodeId dependencyId dependencyId).mpr (Or.inl rfl)
      · rw [dep_withEdge, hsame.dep]
        exact or_comm

theorem checkDependencies_error_iff {nodeWasKnown : Bool} :
    (∃ err, g.checkDependencies nodeId nodeWasKnown dependencyIds = .error err) ↔
      ∃ d ∈ dependencyIds, d = "" ∨ nodeId = d ∨ (nodeWasKnown = true ∧ g.hasPath d nodeId = true) := by
  induction dependencyIds with
  | nil =>
    refine iff_of_false ?_ ?_
    · rintro ⟨err, herr⟩
      cases herr
    · rintro ⟨d, hd, -⟩
      exact List.not_mem_nil hd
  | cons d rest ih =>
    unfold checkDependencies
    split_ifs with hempty hcycle
    · exact iff_of_true ⟨_, rfl⟩ ⟨d, List.mem_cons_self, Or.inl hempty⟩
    · exact iff_of_true ⟨_, rfl⟩ ⟨d, List.mem_cons_self, Or.inr hcycle⟩
    · rw [ih, List.exists_mem_cons_iff]
      exact (or_iff_right (fun hd => hd.elim hempty hcycle)).symm

theorem outcome_setDependencies (h : GraphInv g) (nodeId : String) (dependencyIds : List String) :
    Outcome g (.setDependencies nodeId dependencyIds) := by
  by_cases hnode : nodeId = ""
  · subst hnode
    exact .nameless rfl _ (by rw [perform, setDependencies, addNode_empty])
  have hsame := sameEdges_ensureNode g nodeId
  have hcycle := cyclic_result_iff h (.setDependencies nodeId dependencyIds)
  have hchecked : (∃ err, (g.ensureNode nodeId).checkDependencies nodeId (g.dependencies.has nodeId)
      (sortStrings (unique dependencyIds)) = .error err) ↔
        "" ∈ dependencyIds ∨ Cyclic ((Call.setDependencies nodeId dependencyIds).Result g) := by
    rw [checkDependencies_error_iff, hcycle]
    simp only [closes_iff h hsame, mem_sortStrings, mem_unique]
    constructor
    · rintro ⟨d, hd, rfl | hreach⟩
      · exact .inl hd
      · exact .inr ⟨d, hd, hreach⟩
    · rintro (hd | ⟨d, hd, hreach⟩)
      · exact ⟨"", hd, Or.inl rfl⟩
      · exact ⟨d, hd, Or.inr hreach⟩
  have hperform : g.perform (.setDependencies nodeId dependencyIds) = g.setDependencies nodeId dependencyIds := rfl
  have hset : ∀ checked, (g.ensureNode nodeId).checkDependencies nodeId (g.dependencies.has nodeId)
      (sortStrings (unique dependencyIds)) = checked → (g.setDependencies nodeId dependencyIds).2 = checked ∧
          ((g.setDependencies nodeId dependencyIds).1 = g.ensureNode nodeId ∨ checked = .ok ()) := by
    intro checked hcheck
    unfold setDependencies
    rw [addNode_of_ne g hnode]
    dsimp only
    rw [hcheck]
    cases checked with
    | error err => exact ⟨rfl, Or.inl rfl⟩
    | ok u => exact ⟨rfl, Or.inr rfl⟩
  cases hcheck : (g.ensureNode nodeId).checkDependencies nodeId (g.dependencies.has nodeId)
      (sortStrings (unique dependencyIds)) with
  | error err =>
    obtain ⟨hanswer, hleft | hok⟩ := hset _ hcheck
    · exact .rejected hnode (hchecked.mp ⟨err, hcheck⟩) _ err (hperform.trans (Prod.ext hleft hanswer))
        (h.ensureNode nodeId) hsame (hasNode_ensureNode g nodeId)
    · cases hok
  | ok u =>
    have hnone := mt hchecked.mpr (by rw [hcheck]; rintro ⟨err, herr⟩; cases herr)
    rw [not_or] at hnone
    obtain ⟨err, herr⟩ | ⟨g', hok, hlinked⟩ := @setDependencies_cases _ _ dependencyIds h hnode
    · have hanswer := (hset _ hcheck).1
      rw [herr] at hanswer
      cases hanswer
    · exact .done hnode hnone.1 hnone.2 g' (hperform.trans hok) hlinked.inv hlinked.dependencies

theorem outcome (h : GraphInv g) (call : Call) : Outcome g call := by
  cases call with
  | addNode nodeId => exact outcome_addNode h nodeId
  | addDependency nodeId dependencyId => exact outcome_addDependency h nodeId dependencyId
  | setDependencies nodeId dependencyIds => exact outcome_setDependencies h nodeId dependencyIds

theorem mem_dependentsOf {n d : String} : n ∈ g.dependentsOf d ↔ n ∈ g.dependents.neighbours d := mem_sortStrings

theorem mem_reachableDependents (h : GraphInv g) (n d : String) : d ∈ g.reachableDependents n ↔ TransGen g.Dep d n := by
  have hedges := edgeCount_eq g.dependents
  have hdep : ∀ a b, b ∈ g.dependentsOf a ↔ g.Dep b a := fun a b => mem_dependentsOf.trans (h.mirror b a).symm
  unfold reachableDependents
  rw [mem_sortStrings, ← OrderedSet.mem_def, @mem_flood _ _ _ g.dependents.keys]
  · constructor
    · rintro ⟨b, hb, hlead⟩
      have hfirst := (hdep n b).mp hb
      induction hlead with
      | refl => exact .single hfirst
      | tail _ hstep ih => exact .head ((hdep _ _).mp hstep) ih
    · intro hpath
      induction hpath using TransGen.head_induction_on with
      | single hlast => exact ⟨_, (hdep n _).mpr hlast, .refl⟩
      | head hfirst _ ih =>
        obtain ⟨b, hb, hlead⟩ := ih
        exact ⟨b, hb, hlead.tail ((hdep _ _).mpr hfirst)⟩
  · intro a ha
    obtain ⟨b, hb⟩ := List.exists_mem_of_ne_nil _ ha
    exact mem_keys_of_neighbour _ (mem_dependentsOf.mp hb)
  · unfold dependentsOf
    omega

theorem topologicalOrder_spec (h : GraphInv g) : ∃ order, g.topologicalOrder = .ok order ∧ SmallestOrder g order := by
  have hkeys : ∀ n, n ∈ (⟨g.dependencies.keys, g.dependencies.keys_nodup⟩ : OrderedSet String) ↔ g.hasNode n = true :=
    fun n => g.dependencies.has_eq_true.symm
  obtain ⟨order, hcountdown, horder, hsmallest⟩ := @countdown_spec _ _ UnitsLe sortStrings g.dependencies.neighbours
    g.dependentsOf ⟨g.dependencies.keys, g.dependencies.keys_nodup⟩ sortStrings_perm sortStrings_sorted
    (fun a => le_refl (codeUnits a)) (fun n d hd => h.known n d hd) (fun n d hd => mem_keys_of_neighbour _ hd)
    (fun n d => (h.mirror n d).trans mem_dependentsOf.symm) (fun n => neighbours_nodup _ n)
    (fun d => sortStrings_nodup (neighbours_nodup _ d)) h.acyclic
  simp only [hkeys] at horder hsmallest
  refine ⟨order, ?_, horder, hsmallest⟩
  unfold topologicalOrder
  rw [hcountdown]
  exact if_neg fun hne => hne rfl

example : (after [.addDependency "d" "b", .setDependencies "a" ["c"], .addNode "e"]).topologicalOrder
    = .ok ["b", "c", "a", "d", "e"] := by decide +kernel

theorem graphInv_empty : GraphInv {} where
  mirror := fun _ _ => iff_of_false List.not_mem_nil List.not_mem_nil
  known := fun _ _ h => absurd h List.not_mem_nil
  acyclic := ⟨fun _ => Acc.intro _ (fun _ h => absurd h List.not_mem_nil)⟩
  paired := fun _ h => h

theorem GraphInv.perform (h : GraphInv g) (call : Call) : GraphInv (g.perform call).1 := by
  cases outcome h call with
  | nameless _ err hcall => rw [hcall]; exact h
  | rejected _ _ g' err hcall hinv => rw [hcall]; exact hinv
  | done _ _ _ g' hcall hinv => rw [hcall]; exact hinv

theorem graphInv_after (calls : List Call) : GraphInv (after calls) := by
  unfold after
  induction calls using List.reverseRecOn with
  | nil => exact graphInv_empty
  | append_singleton calls call ih =>
    rw [List.foldl_append]
    exact ih.perform call

theorem throws_iff (h : GraphInv g) (call : Call) :
    g.Throws call ↔ call.nodeId = "" ∨ "" ∈ call.dependencyIds ∨ Cyclic (call.Result g) := by
  unfold Throws
  cases outcome h call with
  | nameless hnode err hcall => rw [hcall]; exact iff_of_true ⟨err, rfl⟩ (Or.inl hnode)
  | rejected hnode hcause g' err hcall => rw [hcall]; exact iff_of_true ⟨err, rfl⟩ (Or.inr hcause)
  | done hnode hempty hcycle g' hcall =>
    rw [hcall]
    refine iff_of_false ?_ (not_or.mpr ⟨hnode, not_or.mpr ⟨hempty, hcycle⟩⟩)
    rintro ⟨err, herr⟩
    cases herr

theorem performed_edges (h : GraphInv g) {call : Call} (hthrows : ¬ g.Throws call) (n d : String) :
    (g.perform call).1.Dep n d ↔ call.Result g n d := by
  cases outcome h call with
  | nameless hnode err hcall => exact absurd ⟨err, by rw [hcall]⟩ hthrows
  | rejected hnode hcause g' err hcall => exact absurd ⟨err, by rw [hcall]⟩ hthrows
  | done hnode hempty hcycle g' hcall hinv hedges => rw [hcall]; exact hedges n d

theorem unchanged_iff (h : GraphInv g) (call : Call) :
    (g.Throws call → Unchanged g (g.perform call).1) ↔ Settled g call := by
  unfold Settled
  cases outcome h call with
  | nameless hnode err hcall =>
    refine iff_of_true (fun _ => ?_) (Or.inl hnode)
    rw [hcall]
    exact ⟨fun _ => rfl, fun _ _ => Iff.rfl⟩
  | rejected hnode hcause g' err hcall hinv hedges hnodes =>
    have hthrows : g.Throws call := ⟨err, by rw [hcall]⟩
    rw [hcall]
    constructor
    · intro hunchanged
      refine .inr (Or.inl ?_)
      rw [← (hunchanged hthrows).nodes]
      exact (hnodes _).mpr (Or.inl rfl)
    · intro hsettled _
      have hknown : g.hasNode call.nodeId = true := by
        obtain hnode' | hknown | hids := hsettled
        · exact absurd hnode' hnode
        · exact hknown
        · obtain hempty | hcycle := hcause
          · exact absurd rfl (hids "" hempty).1
          · obtain ⟨d, hd, hreach⟩ := (cyclic_result_iff h call).mp hcycle
            exact h.known_of_reaches hreach (hids d hd).2
      refine ⟨fun n => Bool.eq_iff_iff.mpr ((hnodes n).trans (or_iff_right_of_imp ?_)), hedges.dep⟩
      rintro rfl
      exact hknown
  | done hnode hempty hcycle g' hcall =>
    refine iff_of_true ?_ (Or.inr (Or.inr (fun d hd => ⟨?_, ?_⟩)))
    · rintro ⟨err, herr⟩
      rw [hcall] at herr
      cases herr
    · rintro rfl
      exact hempty hd
    · rintro rfl
      exact hcycle ((cyclic_result_iff h call).mpr ⟨_, hd, .refl⟩)

/-- After any calls, a graph keeps all that it promises about a call if and only if the call does not add a node
    before it finds out that it cannot be carried out. -/
theorem correct_iff (calls : List Call) (call : Call) :
    Correct (after calls) call ↔ Settled (after calls) call := by
  have hinv := graphInv_after calls
  have hinv' := hinv.perform call
  constructor
  · exact fun hcorrect => (unchanged_iff hinv call).mp hcorrect.unchanged
  · intro hsettled
    exact {
      transposed := fun n d => mem_sortStrings.trans ((hinv'.mirror n d).trans mem_dependentsOf.symm)
      acyclic := not_cyclic_of_wellFounded hinv'.acyclic
      throws := throws_iff hinv call
      unchanged := (unchanged_iff hinv call).mpr hsettled
      performed := performed_edges hinv
      reachable := mem_reachableDependents hinv'
      ordered := topologicalOrder_spec hinv' }

/-- A new node that is to depend on itself. -/
theorem rejected_call_adds_node : ¬ Correct (after []) (.setDependencies "a" ["a"]) := by
  intro hcorrect
  have hnodes := (hcorrect.unchanged ⟨dependencyCycleError "a" "a", rfl⟩).nodes "a"
  exact absurd hnodes (by decide)

end DependencyGraph

end Premise.Reference
