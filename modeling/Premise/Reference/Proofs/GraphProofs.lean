import Premise.FrontierEngine.Proofs.OperationProofs
import Premise.Reference.Validation

/-!
# Proofs: the dependency graph

`setDependencies` keeps the two maps inverse to each other and the graph acyclic; where it throws, it
leaves the edges as they are.
-/

namespace Premise.Reference

open Collections Premise.Graph Js FrontierEngine
  FrontierEngine.Adjacency Relation
open FrontierEngine.IncrementalFrontierEngine (neighbours_addMissing mem_keys_addMissing)

namespace DependencyGraph

variable {g g' : DependencyGraph} {nodeId : String} {dependencyIds : List String}

/-- `n` depends on `d`. -/
def Dep (g : DependencyGraph) (n d : String) : Prop := d ∈ g.dependencies.neighbours n

structure GraphInv (g : DependencyGraph) : Prop where
  mirror : ∀ n d, d ∈ g.dependencies.neighbours n ↔ n ∈ g.dependents.neighbours d
  known : ∀ n d, g.Dep n d → d ∈ g.dependencies.keys
  acyclic : WellFounded (fun d n => g.Dep n d)
  paired : ∀ n ∈ g.dependencies.keys, n ∈ g.dependents.keys

/-- The same edges. -/
structure SameEdges (g g' : DependencyGraph) : Prop where
  dependencies : ∀ n, g'.dependencies.neighbours n = g.dependencies.neighbours n
  dependents : ∀ n, g'.dependents.neighbours n = g.dependents.neighbours n

theorem sameEdges_ensureNode (g : DependencyGraph) (nodeId : String) :
    SameEdges g (g.ensureNode nodeId) where
  dependencies := neighbours_addMissing g.dependencies nodeId
  dependents := neighbours_addMissing g.dependents nodeId

theorem keys_ensureNode (g : DependencyGraph) (nodeId n : String) :
    n ∈ (g.ensureNode nodeId).dependencies.keys ↔ n = nodeId ∨ n ∈ g.dependencies.keys :=
  mem_keys_addMissing g.dependencies nodeId n

theorem GraphInv.ensureNode (h : GraphInv g) (nodeId : String) : GraphInv (g.ensureNode nodeId) where
  mirror := by
    intro n d
    rw [(sameEdges_ensureNode g nodeId).dependencies, (sameEdges_ensureNode g nodeId).dependents]
    exact h.mirror n d
  known := by
    intro n d hdep
    unfold Dep at hdep
    rw [(sameEdges_ensureNode g nodeId).dependencies] at hdep
    exact (keys_ensureNode g nodeId d).mpr (Or.inr (h.known n d hdep))
  acyclic := by
    refine wellFounded_mono h.acyclic fun n d hdep => ?_
    unfold Dep at hdep
    rwa [(sameEdges_ensureNode g nodeId).dependencies] at hdep
  paired := by
    intro n hn
    rw [keys_ensureNode] at hn
    exact (mem_keys_addMissing g.dependents nodeId n).mpr (hn.imp_right (h.paired n))

theorem GraphInv.ensureNode_known (h : GraphInv g) (hknown : nodeId ∈ g.dependencies.keys) : g.ensureNode nodeId = g := by
  unfold DependencyGraph.ensureNode
  rw [if_pos (g.dependencies.has_eq_true.mpr hknown), if_pos (g.dependents.has_eq_true.mpr (h.paired nodeId hknown))]

/-- `n` depends on `d`, directly or through others, or is `d`. -/
def Reaches (g : DependencyGraph) (n d : String) : Prop := ReflTransGen g.Dep n d

theorem edgeCount_eq (a : Adjacency) : (a.keys.map (fun n => (sortStrings (a.neighbours n)).length)).sum = a.edgeCount := by
  unfold edgeCount OrderedMap.keys
  rw [List.map_map]
  refine congrArg List.sum (List.map_congr_left (fun p hp => ?_))
  have hget : a.get? p.1 = some p.2 := a.get?_eq_some_iff.mpr hp
  rw [Function.comp_apply, (sortStrings_perm _).length_eq]
  unfold neighbours
  rw [hget]
  rfl

theorem hasPath_iff (g : DependencyGraph) (start target : String) :
    g.hasPath start target = true ↔ g.Reaches start target := by
  have hedges := edgeCount_eq g.dependencies
  unfold hasPath
  rw [@reaches_iff _ _ _ g.dependencies.keys]
  · unfold Leads Reaches Dep dependenciesOf
    simp only [mem_sortStrings]
  · intro n hn
    obtain ⟨d, hd⟩ := List.exists_mem_of_ne_nil _ hn
    unfold dependenciesOf at hd
    rw [mem_sortStrings] at hd
    exact mem_keys_of_neighbour _ hd
  · unfold dependenciesOf
    omega

theorem checkDependencies_ok {nodeWasKnown : Bool} (hknown : nodeWasKnown = true ∨ ∀ d, d ≠ nodeId → ¬ g.Reaches d nodeId)
    (h : g.checkDependencies nodeId nodeWasKnown dependencyIds = .ok ()) :
    ∀ d ∈ dependencyIds, d ≠ "" ∧ ¬ g.Reaches d nodeId := by
  induction dependencyIds with
  | nil => exact nofun
  | cons d rest ih =>
    unfold checkDependencies at h
    split_ifs at h with hempty hcycle
    refine List.forall_mem_cons.mpr ⟨⟨hempty, ?_⟩, ih h⟩
    rw [not_or, not_and, hasPath_iff] at hcycle
    rcases hknown with hknown | hknown
    · exact hcycle.2 hknown
    · exact hknown d (Ne.symm hcycle.1)

/-! ## Changing the edges -/

theorem mem_neighbours_unlink (dependents : Adjacency) (nodeId old n m : String) :
    m ∈ (unlink nodeId dependents old).neighbours n
      ↔ m ∈ dependents.neighbours n ∧ ¬ (n = old ∧ m = nodeId) := by
  unfold unlink
  cases hget : dependents.get? old with
  | none =>
    refine ⟨fun hm => ⟨hm, ?_⟩, fun hm => hm.1⟩
    rintro ⟨rfl, -⟩
    unfold neighbours at hm
    rw [hget] at hm
    exact absurd hm (OrderedSet.not_mem_empty m)
  | some ids =>
    rw [neighbours_set]
    split_ifs with hn
    · have hold : dependents.neighbours n = ids.elems := by
        unfold neighbours
        rw [hn, hget]
        rfl
      rw [hold, ← OrderedSet.mem_def, OrderedSet.mem_erase, ← OrderedSet.mem_def]
      tauto
    · tauto

theorem mem_dependents_clearDependencies (g : DependencyGraph) (nodeId n m : String) :
    m ∈ (g.clearDependencies nodeId).dependents.neighbours n
      ↔ m ∈ g.dependents.neighbours n ∧ ¬ (n ∈ g.dependencies.neighbours nodeId ∧ m = nodeId) := by
  unfold clearDependencies
  generalize g.dependencies.neighbours nodeId = l
  generalize g.dependents = dependents
  induction l generalizing dependents with
  | nil => simp
  | cons old l ih =>
    rw [List.foldl_cons, ih, mem_neighbours_unlink, List.mem_cons]
    tauto

theorem dependencies_clearDependencies (g : DependencyGraph) (nodeId n : String) :
    (g.clearDependencies nodeId).dependencies.neighbours n
      = if n = nodeId then [] else g.dependencies.neighbours n := by
  unfold clearDependencies
  rw [neighbours_set]
  rfl

theorem foldl_link (l : List String) (g : DependencyGraph) (nodeId : String)
    (hkey : nodeId ∈ g.dependencies.keys) :
    (∀ n m, m ∈ (l.foldl (link nodeId) g).dependencies.neighbours n
      ↔ (n = nodeId ∧ m ∈ l) ∨ m ∈ g.dependencies.neighbours n) ∧
    (∀ n m, m ∈ (l.foldl (link nodeId) g).dependents.neighbours n ↔ (n ∈ l ∧ m = nodeId) ∨ m ∈ g.dependents.neighbours n) ∧
    ∀ n, n ∈ (l.foldl (link nodeId) g).dependencies.keys ↔ n ∈ l ∨ n ∈ g.dependencies.keys := by
  induction l generalizing g with
  | nil => simp
  | cons d l ih =>
    have hkeys : ∀ n, n ∈ (link nodeId g d).dependencies.keys ↔ n = d ∨ n ∈ g.dependencies.keys := by
      intro n
      unfold link addEdge
      rw [OrderedMap.mem_keys_set, keys_ensureNode]
      constructor
      · rintro (rfl | h)
        · exact .inr hkey
        · exact h
      · exact .inr
    obtain ⟨hdependencies, hdependents, hall⟩ := ih (link nodeId g d) ((hkeys nodeId).mpr (Or.inr hkey))
    refine ⟨?_, ?_, ?_⟩
    · intro n m
      rw [List.foldl_cons, hdependencies]
      unfold link
      rw [mem_neighbours_addEdge, (sameEdges_ensureNode g d).dependencies, List.mem_cons]
      tauto
    · intro n m
      rw [List.foldl_cons, hdependents]
      unfold link
      rw [mem_neighbours_addEdge, (sameEdges_ensureNode g d).dependents, List.mem_cons]
      tauto
    · intro n
      rw [List.foldl_cons, hall, hkeys, List.mem_cons]
      tauto

theorem keys_unlink (dependents : Adjacency) (nodeId old n : String) :
    n ∈ (unlink nodeId dependents old).keys ↔ n ∈ dependents.keys := by
  unfold unlink
  cases hget : dependents.get? old with
  | none => exact Iff.rfl
  | some ids =>
    rw [OrderedMap.mem_keys_set]
    refine ⟨?_, Or.inr⟩
    rintro (rfl | hn)
    · exact dependents.mem_keys_of_get? hget
    · exact hn

theorem keys_dependents_clearDependencies (g : DependencyGraph) (nodeId n : String) :
    n ∈ (g.clearDependencies nodeId).dependents.keys ↔ n ∈ g.dependents.keys := by
  unfold clearDependencies
  generalize g.dependencies.neighbours nodeId = l
  generalize g.dependents = dependents
  induction l generalizing dependents with
  | nil => exact Iff.rfl
  | cons old l ih => rw [List.foldl_cons, ih, keys_unlink]

theorem paired_foldl_link (l : List String) (g : DependencyGraph) (nodeId : String)
    (hpaired : ∀ n ∈ g.dependencies.keys, n ∈ g.dependents.keys)
    (hkey : nodeId ∈ g.dependencies.keys) :
    ∀ n ∈ (l.foldl (link nodeId) g).dependencies.keys, n ∈ (l.foldl (link nodeId) g).dependents.keys := by
  induction l generalizing g with
  | nil => exact hpaired
  | cons d l ih =>
    rw [List.foldl_cons]
    refine ih (link nodeId g d) ?_ ?_
    · intro n hn
      unfold link addEdge at hn ⊢
      rw [OrderedMap.mem_keys_set, keys_ensureNode] at hn
      refine OrderedMap.mem_keys_set _ |>.mpr (Or.inr ((mem_keys_addMissing g.dependents d n).mpr ?_))
      rcases hn with rfl | rfl | hn
      · exact .inr (hpaired _ hkey)
      · exact .inl rfl
      · exact .inr (hpaired n hn)
    · unfold link addEdge
      exact (OrderedMap.mem_keys_set _).mpr (Or.inl rfl)

/-! ## `setDependencies` -/

/-- The node depends on the listed ids, and the rest of the graph is as it was. -/
structure Linked (g g' : DependencyGraph) (nodeId : String) (dependencyIds : List String) : Prop where
  inv : GraphInv g'
  dependencies : ∀ n d, g'.Dep n d ↔ if n = nodeId then d ∈ dependencyIds else g.Dep n d
  keys : ∀ n, n ∈ g'.dependencies.keys ↔
    n ∈ dependencyIds ∨ n = nodeId ∨ n ∈ g.dependencies.keys

theorem wellFounded_linked (h : GraphInv g) {dep : String → String → Prop}
    (hdependencies : ∀ n d, dep n d ↔ if n = nodeId then d ∈ dependencyIds else g.Dep n d)
    (hreach : ∀ d ∈ dependencyIds, ¬ g.Reaches d nodeId) : WellFounded (fun d n => dep n d) := by
  have hacc : ∀ n, ¬ g.Reaches n nodeId → Acc (fun d n => dep n d) n := by
    intro n
    induction n using h.acyclic.induction with
    | _ n ih =>
      intro hn
      refine Acc.intro n fun d hd => ?_
      have hne : n ≠ nodeId := by
        rintro rfl
        exact hn ReflTransGen.refl
      rw [hdependencies, if_neg hne] at hd
      exact ih d hd fun hreach => hn (ReflTransGen.head hd hreach)
  refine wellFounded_update h.acyclic nodeId ?_ ?_
  · refine Acc.intro nodeId fun d hd => ?_
    rw [hdependencies, if_pos rfl] at hd
    exact hacc d (hreach d hd)
  · intro n hn d hd
    rwa [hdependencies, if_neg hn] at hd

theorem linked_of_checked (h : GraphInv g) (hkey : nodeId ∈ g.dependencies.keys) {next : List String}
    (hreach : ∀ d ∈ next, ¬ g.Reaches d nodeId) :
    Linked g (next.foldl (link nodeId) (g.clearDependencies nodeId)) nodeId next := by
  have hcleared : ∀ n, n ∈ (g.clearDependencies nodeId).dependencies.keys ↔
      n = nodeId ∨ n ∈ g.dependencies.keys := fun n => OrderedMap.mem_keys_set _
  obtain ⟨hdependencies, hdependents, hkeys⟩ :=
    foldl_link next (g.clearDependencies nodeId) nodeId ((hcleared nodeId).mpr (Or.inl rfl))
  have hdep : ∀ n d, Dep (next.foldl (link nodeId) (g.clearDependencies nodeId)) n d ↔
      if n = nodeId then d ∈ next else g.Dep n d := by
    intro n d
    unfold Dep
    rw [hdependencies, dependencies_clearDependencies]
    by_cases hn : n = nodeId
    · simp [hn]
    · simp [hn]
  have hallkeys : ∀ n, n ∈ (next.foldl (link nodeId) (g.clearDependencies nodeId)).dependencies.keys ↔
      n ∈ next ∨ n = nodeId ∨ n ∈ g.dependencies.keys := by
    intro n
    rw [hkeys, hcleared]
  have hpaired : ∀ n ∈ (g.clearDependencies nodeId).dependencies.keys,
      n ∈ (g.clearDependencies nodeId).dependents.keys := by
    intro n hn
    rw [keys_dependents_clearDependencies]
    rcases (hcleared n).mp hn with rfl | hn
    · exact h.paired n hkey
    · exact h.paired n hn
  refine ⟨⟨?_, ?_, wellFounded_linked h hdep hreach, paired_foldl_link next _ nodeId hpaired
    ((hcleared nodeId).mpr (Or.inl rfl))⟩, hdep, hallkeys⟩
  · intro n d
    have hmirror := h.mirror
    have hiff := hdep n d
    unfold Dep at hiff
    rw [hiff, hdependents, mem_dependents_clearDependencies, ← hmirror]
    by_cases hn : n = nodeId
    · subst hn
      simp
    · simp [hn]
  · intro n d hd
    rw [hallkeys]
    rw [hdep] at hd
    split_ifs at hd with hn
    · exact .inl hd
    · exact .inr (Or.inr (h.known n d hd))

theorem setDependencies_cases (h : GraphInv g) (hnode : nodeId ≠ "") :
    (∃ err, g.setDependencies nodeId dependencyIds = (g.ensureNode nodeId, .error err)) ∨
    ∃ g', g.setDependencies nodeId dependencyIds = (g', .ok ()) ∧ Linked g g' nodeId dependencyIds := by
  have hinv := h.ensureNode nodeId
  have hsame := sameEdges_ensureNode g nodeId
  have hadd : g.addNode nodeId = .ok (g.ensureNode nodeId) := if_neg hnode
  unfold setDependencies
  rw [hadd]
  dsimp only
  cases hcheck : (g.ensureNode nodeId).checkDependencies nodeId (g.dependencies.has nodeId)
      (sortStrings (unique dependencyIds)) with
  | error err => exact .inl ⟨err, rfl⟩
  | ok u =>
    refine .inr ⟨_, rfl, ?_⟩
    have hdep : ∀ n d, (g.ensureNode nodeId).Dep n d ↔ g.Dep n d := by
      intro n d
      unfold Dep
      rw [hsame.dependencies]
    have hknown : g.dependencies.has nodeId = true ∨ ∀ d, d ≠ nodeId → ¬ (g.ensureNode nodeId).Reaches d nodeId := by
      by_cases hhas : g.dependencies.has nodeId = true
      · exact .inl hhas
      · refine .inr fun d hd hreach => ?_
        obtain hrefl | ⟨n, -, hlast⟩ := ReflTransGen.cases_tail hreach
        · exact hd hrefl.symm
        · exact hhas (g.dependencies.has_eq_true.mpr (h.known n nodeId ((hdep n nodeId).mp hlast)))
    have hreach := checkDependencies_ok hknown hcheck
    have hlinked := linked_of_checked hinv ((keys_ensureNode g nodeId nodeId).mpr (Or.inl rfl))
      (fun d hd => (hreach d hd).2)
    have hmem : ∀ d, d ∈ sortStrings (unique dependencyIds) ↔ d ∈ dependencyIds := by
      intro d
      rw [mem_sortStrings, mem_unique]
    refine ⟨hlinked.inv, ?_, ?_⟩
    · intro n d
      rw [hlinked.dependencies, hmem, hdep]
    · intro n
      rw [hlinked.keys, hmem, keys_ensureNode]
      tauto

theorem checkDependencies_new {g : DependencyGraph} {nodeId : String} {l : List String}
    (h : ∀ d ∈ l, d ≠ "" ∧ d ≠ nodeId) : g.checkDependencies nodeId false l = .ok () := by
  induction l with
  | nil => rfl
  | cons d l ih =>
    obtain ⟨⟨hempty, hne⟩, hrest⟩ := List.forall_mem_cons.mp h
    unfold checkDependencies
    rw [if_neg hempty, if_neg]
    · exact ih hrest
    · rintro (rfl | ⟨hknown, -⟩)
      · exact hne rfl
      · cases hknown

theorem setDependencies_new (h : GraphInv g) (hnode : nodeId ≠ "")
    (hnew : nodeId ∉ g.dependencies.keys) (hids : ∀ d ∈ dependencyIds, d ≠ "" ∧ d ≠ nodeId) :
    ∃ g', g.setDependencies nodeId dependencyIds = (g', .ok ()) ∧
      Linked g g' nodeId dependencyIds := by
  refine (setDependencies_cases h hnode).resolve_left ?_
  rintro ⟨err, herr⟩
  have hadd : g.addNode nodeId = .ok (g.ensureNode nodeId) := if_neg hnode
  have hhas : g.dependencies.has nodeId = false := g.dependencies.has_eq_false.mpr hnew
  have hcheck : (g.ensureNode nodeId).checkDependencies nodeId false (sortStrings (unique dependencyIds)) = .ok () := by
    refine checkDependencies_new fun d hd => hids d ?_
    rwa [mem_sortStrings, mem_unique] at hd
  unfold setDependencies at herr
  rw [hadd, hhas] at herr
  dsimp only at herr
  rw [hcheck] at herr
  cases (Prod.mk.inj herr).2

end DependencyGraph

/-!
# Proofs: the order of a validation

The memories that are being visited all depend on the one whose turn it is, so that none of them is met
again on an acyclic graph; and they are requested ones, so that the visits do not go deeper than there
are requested memories.
-/

namespace ReferenceProtocol

variable {g : DependencyGraph} {requested : List String}

/-- The memories that are being visited are requested, and depend on `memoryId`. -/
structure Descends (g : DependencyGraph) (requested : List String) (depth : Nat) (o : VisitOrder)
    (memoryId : String) : Prop where
  known : ∀ v ∈ o.visiting, v ∈ requested
  dependent : ∀ v ∈ o.visiting, TransGen g.Dep v memoryId
  depth : o.visiting.size + depth = requested.length + 1

theorem Descends.size_le {depth : Nat} {o : VisitOrder} {memoryId : String}
    (h : Descends g requested depth o memoryId) (hacyclic : WellFounded (fun d n => g.Dep n d))
    (hmem : memoryId ∈ requested) : memoryId ∉ o.visiting ∧ o.visiting.size + 1 ≤ requested.length := by
  have hnew : memoryId ∉ o.visiting := fun hin => not_transGen_self hacyclic memoryId (h.dependent _ hin)
  refine ⟨hnew, ?_⟩
  rw [← OrderedSet.size_add hnew]
  refine ((o.visiting.add memoryId).nodup.subperm (fun v hv => ?_)).length_le
  rcases OrderedSet.mem_add.mp hv with rfl | hv
  · exact hmem
  · exact h.known v hv

theorem visit_ok (hacyclic : WellFounded (fun d n => g.Dep n d)) (depth : Nat) :
    ∀ (o : VisitOrder) (memoryId : String), memoryId ∈ requested → Descends g requested depth o memoryId →
      ∃ o', visit g requested depth o memoryId = .ok o' ∧ o'.visiting = o.visiting := by
  induction depth with
  | zero =>
    intro o memoryId hmem hdescends
    have hsize := (hdescends.size_le hacyclic hmem).2
    have hdepth := hdescends.depth
    omega
  | succ depth ih =>
    intro o memoryId hmem hdescends
    obtain ⟨hnew, hsize⟩ := hdescends.size_le hacyclic hmem
    have hdepth := hdescends.depth
    unfold visit
    split_ifs with hvisited
    · exact ⟨o, rfl, rfl⟩
    -- The dependencies are visited one after the other.
    have hdeps : ∀ (l : List String) (o1 : VisitOrder), (∀ d ∈ l, d ∈ requested ∧ g.Dep memoryId d) →
        o1.visiting = o.visiting.add memoryId →
        ∃ o2, l.foldlM (visit g requested depth) o1 = .ok o2 ∧
          o2.visiting = o.visiting.add memoryId := by
      intro l
      induction l with
      | nil => exact fun o1 _ heq => ⟨o1, rfl, heq⟩
      | cons d l ihl =>
        intro o1 hl heq
        obtain ⟨hd, hdep⟩ := hl d List.mem_cons_self
        have hbelow : Descends g requested depth o1 d := by
          refine ⟨?_, ?_, ?_⟩
          · intro v hv
            rw [heq, OrderedSet.mem_add] at hv
            rcases hv with rfl | hv
            · exact hmem
            · exact hdescends.known v hv
          · intro v hv
            rw [heq, OrderedSet.mem_add] at hv
            rcases hv with rfl | hv
            · exact TransGen.single hdep
            · exact (hdescends.dependent v hv).tail hdep
          · rw [heq, OrderedSet.size_add hnew]
            omega
        obtain ⟨o2, hvisit, hvisiting⟩ := ih o1 d hd hbelow
        obtain ⟨o3, hrest, hvisiting'⟩ := ihl o2 (fun d hd => hl d (List.mem_cons_of_mem _ hd))
          (hvisiting.trans heq)
        refine ⟨o3, ?_, hvisiting'⟩
        rw [List.foldlM_cons, hvisit]
        exact hrest
    obtain ⟨o2, hfold, hvisiting⟩ := hdeps
      ((g.dependenciesOf memoryId).filter (fun d => decide (d ∈ requested)))
      { o with visiting := o.visiting.add memoryId } (fun d hd => by
        obtain ⟨hdep, hreq⟩ := List.mem_filter.mp hd
        exact ⟨of_decide_eq_true hreq, mem_sortStrings.mp hdep⟩) rfl
    rw [hfold]
    refine ⟨_, rfl, ?_⟩
    show o2.visiting.erase memoryId = o.visiting
    rw [hvisiting, OrderedSet.erase_add hnew]

theorem validationOrder_ok {p : ReferenceProtocol}
    (hacyclic : WellFounded (fun d n => p.states.graph.Dep n d)) (memoryIds : List String) :
    ∃ order, p.validationOrder memoryIds = .ok order := by
  have hvisits : ∀ (l : List String) (o : VisitOrder), l ⊆ memoryIds → o.visiting = ∅ →
      ∃ o', l.foldlM (visit p.states.graph memoryIds (memoryIds.length + 1)) o = .ok o' := by
    intro l
    induction l with
    | nil => exact fun o _ _ => ⟨o, rfl⟩
    | cons a l ih =>
      intro o hl hnone
      have hstart : Descends p.states.graph memoryIds (memoryIds.length + 1) o a := by
        refine ⟨?_, ?_, ?_⟩
        · intro v hv
          rw [hnone] at hv
          exact absurd hv (OrderedSet.not_mem_empty v)
        · intro v hv
          rw [hnone] at hv
          exact absurd hv (OrderedSet.not_mem_empty v)
        · rw [hnone]
          exact Nat.zero_add _
      obtain ⟨o1, hvisit, hvisiting⟩ := visit_ok hacyclic _ o a (hl List.mem_cons_self) hstart
      obtain ⟨o2, hrest⟩ := ih o1 (fun v hv => hl (List.mem_cons_of_mem _ hv)) (hvisiting.trans hnone)
      refine ⟨o2, ?_⟩
      rw [List.foldlM_cons, hvisit]
      exact hrest
  obtain ⟨o, ho⟩ := hvisits memoryIds {} (fun v hv => hv) rfl
  refine ⟨o.order, ?_⟩
  unfold validationOrder
  rw [ho]
  rfl

end ReferenceProtocol

end Premise.Reference
