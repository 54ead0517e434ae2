import Premise.FrontierEngine.Proofs.MarkDirtyProofs

/-!
# Proofs: the graph updates of the constructor, `setDependencies` and `removeNode`

Each of them keeps `dependents` the reverse of `dependencies`, adds a node for every dependency, and
leaves an acyclic graph.
-/

namespace Premise.FrontierEngine

open Collections Control Premise.Graph Js Relation Adjacency

namespace IncrementalFrontierEngine

variable {e : IncrementalFrontierEngine}

theorem mem_neighbours_removeReverseEdge (g : Adjacency) (id d n m : String) :
    m ∈ neighbours (removeReverseEdge id g d) n ↔ m ∈ g.neighbours n ∧ ¬ (n = d ∧ m = id) := by
  unfold removeReverseEdge
  cases hd : g.get? d with
  | none =>
    refine ⟨fun hm => ⟨hm, ?_⟩, fun hm => hm.1⟩
    rintro ⟨rfl, -⟩
    simp [neighbours, hd] at hm
  | some set =>
    have hnb : g.neighbours d = set.elems := by simp [neighbours, hd]
    have herase : ∀ x, x ∈ (set.erase id).elems ↔ x ≠ id ∧ x ∈ set.elems :=
      fun x => OrderedSet.mem_erase
    dsimp only
    split_ifs with hsize
    · rw [neighbours_erase]
      split_ifs with hn
      · subst hn
        have hempty := (OrderedSet.size_eq_zero _).mp hsize m
        rw [hnb]
        constructor
        · exact fun hm => absurd hm List.not_mem_nil
        · rintro ⟨hm, hne⟩
          exact absurd ((herase m).mpr ⟨fun h => hne ⟨rfl, h⟩, hm⟩) hempty
      · simp [hn]
    · rw [neighbours_set]
      split_ifs with hn
      · subst hn
        rw [herase, hnb]
        simp [and_comm]
      · simp [hn]

theorem mem_neighbours_removeReverseEdges (dependencies dependents : Adjacency) (id n m : String) :
    m ∈ neighbours (removeReverseEdges dependencies dependents id) n
      ↔ m ∈ dependents.neighbours n ∧ ¬ (n ∈ dependencies.neighbours id ∧ m = id) := by
  unfold removeReverseEdges
  generalize dependencies.neighbours id = l
  induction l generalizing dependents with
  | nil => simp
  | cons d l ih =>
    rw [List.foldl_cons, ih, mem_neighbours_removeReverseEdge, List.mem_cons]
    tauto

theorem mem_neighbours_foldl_addEdge (l : List String) (g : Adjacency) (id n m : String) :
    m ∈ neighbours (l.foldl (fun g d => g.addEdge d id) g) n
      ↔ (n ∈ l ∧ m = id) ∨ m ∈ g.neighbours n := by
  induction l generalizing g with
  | nil => simp
  | cons d l ih =>
    rw [List.foldl_cons, ih, mem_neighbours_addEdge, List.mem_cons]
    tauto

/-! ## Adding the missing nodes -/

theorem neighbours_addMissing (g : Adjacency) (d n : String) :
    neighbours (if g.has d then g else g.set d ∅) n = g.neighbours n := by
  split_ifs with h
  · rfl
  · rw [neighbours_set]
    split_ifs with hn
    · have hnone : g.get? n = none := by
        rw [hn]
        exact g.get?_eq_none_iff.mpr fun hd => h (g.has_eq_true.mpr hd)
      simp [neighbours, hnone]
    · rfl

theorem mem_keys_addMissing (g : Adjacency) (d n : String) :
    n ∈ OrderedMap.keys (if g.has d then g else g.set d ∅) ↔ n = d ∨ n ∈ g.keys := by
  split_ifs with h
  · have hd := g.has_eq_true.mp h
    constructor
    · exact .inr
    · rintro (rfl | hn)
      · exact hd
      · exact hn
  · exact g.mem_keys_set

theorem assertId_ok {id name : String} (h : assertId id name = .ok ()) : id ≠ "" := by
  rintro rfl
  simp [assertId] at h

/-- What a pass over requested dependencies leaves of the graph. -/
structure AddedNodes (requested : List String) (g g' : Adjacency) : Prop where
  neighbours_eq : ∀ n, g'.neighbours n = g.neighbours n
  keys_sub : ∀ n ∈ g.keys, n ∈ g'.keys
  named : "" ∉ g.keys → "" ∉ g'.keys

theorem AddedNodes.step {d : String} {rest : List String} {g g' : Adjacency} (hd : d ≠ "")
    (h : AddedNodes rest (if g.has d then g else g.set d ∅) g') : AddedNodes (d :: rest) g g' where
  neighbours_eq := fun n => (h.neighbours_eq n).trans (neighbours_addMissing g d n)
  keys_sub := fun n hn => h.keys_sub n ((mem_keys_addMissing g d n).mpr (Or.inr hn))
  named := by
    intro hne
    refine h.named fun hmem => ?_
    rcases (mem_keys_addMissing g d "").mp hmem with he | hmem
    · exact hd he.symm
    · exact hne hmem

theorem addMissingNodes_spec (id : String) (next : List String) (g : Adjacency) :
    AddedNodes next g (addMissingNodes id next g).1 ∧ ((addMissingNodes id next g).2 = .ok () →
        ∀ d ∈ next, d ∈ (addMissingNodes id next g).1.keys ∧ d ≠ id) := by
  induction next generalizing g with
  | nil => exact ⟨⟨fun _ => rfl, fun _ h => h, fun h => h⟩, by simp⟩
  | cons d rest ih =>
    simp only [addMissingNodes]
    cases hid : assertId d "dependency id" with
    | error err => exact ⟨⟨fun _ => rfl, fun _ h => h, fun h => h⟩, fun h => by cases h⟩
    | ok u =>
      by_cases hself : d = id
      · rw [if_pos hself]
        exact ⟨⟨fun _ => rfl, fun _ h => h, fun h => h⟩, fun h => by cases h⟩
      · rw [if_neg hself]
        obtain ⟨h1, h2⟩ := ih (if g.has d then g else g.set d ∅)
        refine ⟨h1.step (assertId_ok hid), fun hok x hx => ?_⟩
        rcases List.mem_cons.mp hx with rfl | hx
        · exact ⟨h1.keys_sub x ((mem_keys_addMissing g x x).mpr (Or.inl rfl)), hself⟩
        · exact h2 hok x hx

theorem setDependencies_graph (hg : e.GraphInv) {id : String} {next : List String} {g : Adjacency}
    (hadded : AddedNodes next e.dependencies g) (hknown : ∀ d ∈ next, d ∈ g.keys)
    (hnamed : id ≠ "")
    (hacyc : assertAcyclic (g.set id (OrderedSet.ofList next)) id = .ok ()) :
    ({ e with
      dependencies := g.set id (OrderedSet.ofList next)
      dependents := next.foldl (fun g d => g.addEdge d id)
        (if g.has id then removeReverseEdges g e.dependents id else e.dependents) } :
          IncrementalFrontierEngine).GraphInv := by
  have hdep : ∀ n d, d ∈ neighbours (g.set id (OrderedSet.ofList next)) n
      ↔ (n = id ∧ d ∈ next) ∨ (n ≠ id ∧ e.DependsOn n d) := by
    intro n d
    rw [neighbours_set]
    split_ifs with hn
    · have : d ∈ (OrderedSet.ofList next).elems ↔ d ∈ next := OrderedSet.mem_ofList
      simp [hn, this]
    · rw [hadded.neighbours_eq]
      simp only [hn, false_and, ne_eq, not_false_eq_true, true_and, false_or]
      rfl
  have hrev : ∀ d n, n ∈ neighbours
      (if g.has id then removeReverseEdges g e.dependents id else e.dependents) d
      ↔ n ≠ id ∧ e.Edge d n := by
    intro d n
    split_ifs with hhas
    · rw [mem_neighbours_removeReverseEdges, hadded.neighbours_eq]
      constructor
      · rintro ⟨hn, hne⟩
        refine ⟨?_, hn⟩
        rintro rfl
        exact hne ⟨(hg.mirror n d).mpr hn, rfl⟩
      · rintro ⟨hne, hn⟩
        exact ⟨hn, fun h => hne h.2⟩
    · refine ⟨fun hn => ⟨?_, hn⟩, fun hn => hn.2⟩
      rintro rfl
      have hmem : n ∈ g.keys := by
        refine g.mem_keys_of_neighbour (d := d) ?_
        rw [hadded.neighbours_eq]
        exact (hg.mirror n d).mpr hn
      exact absurd (g.has_eq_true.mpr hmem) hhas
  refine ⟨?_, ?_, ?_, ?_⟩
  · intro n d
    show d ∈ neighbours (g.set id (OrderedSet.ofList next)) n ↔ n ∈ neighbours _ d
    rw [hdep, mem_neighbours_foldl_addEdge, hrev, hg.mirror]
    tauto
  · intro n d hd
    refine (OrderedMap.mem_keys_set _).mpr (Or.inr ?_)
    rcases (hdep n d).mp hd with ⟨-, hd⟩ | ⟨-, hd⟩
    · exact hknown d hd
    · exact hadded.keys_sub d (hg.known n d hd)
  · refine wellFounded_update hg.acyclic id (assertAcyclic_sound hacyc) ?_
    intro n hn d hd
    exact (((hdep n d).mp hd).resolve_left (fun h => hn h.1)).2
  · intro hmem
    rcases (OrderedMap.mem_keys_set _).mp hmem with he | hmem
    · exact hnamed he.symm
    · exact hadded.named hg.named hmem

theorem removeNode_graph (hg : e.GraphInv) {id : String}
    (hnone : ((e.dependents.get? id).getD ∅).size = 0) :
    ({ e with
      dependencies := e.dependencies.erase id
      dependents :=
        (removeReverseEdges e.dependencies e.dependents id).erase id } :
          IncrementalFrontierEngine).GraphInv := by
  have hleaf : ∀ n, ¬ e.Edge id n := (OrderedSet.size_eq_zero _).mp hnone
  have hdep : ∀ n d, d ∈ neighbours (e.dependencies.erase id) n ↔ n ≠ id ∧ e.DependsOn n d := by
    intro n d
    rw [neighbours_erase]
    split_ifs with hn
    · simp [hn]
    · simp only [ne_eq, hn, not_false_eq_true, true_and]
      rfl
  refine ⟨?_, ?_, ?_, ?_⟩
  · intro n d
    show d ∈ neighbours (e.dependencies.erase id) n ↔ n ∈ neighbours (OrderedMap.erase _ id) d
    rw [hdep, neighbours_erase, hg.mirror]
    split_ifs with hd
    · subst hd
      refine ⟨fun h => absurd h.2 (hleaf n), fun h => absurd h List.not_mem_nil⟩
    · rw [mem_neighbours_removeReverseEdges]
      constructor
      · rintro ⟨hne, hn⟩
        exact ⟨hn, fun h => hne h.2⟩
      · rintro ⟨hn, hne⟩
        refine ⟨?_, hn⟩
        rintro rfl
        exact hne ⟨(hg.mirror n d).mpr hn, rfl⟩
  · intro n d hd
    obtain ⟨-, hnd⟩ := (hdep n d).mp hd
    refine (OrderedMap.mem_keys_erase _).mpr ⟨?_, hg.known n d hnd⟩
    rintro rfl
    exact hleaf n ((hg.mirror n d).mp hnd)
  · exact wellFounded_mono hg.acyclic fun n d hd => ((hdep n d).mp hd).2
  · intro hmem
    exact hg.named ((OrderedMap.mem_keys_erase _).mp hmem).2

/-! ## The constructor -/

/-- Every dependency of the graph under construction is a node, and every node has a name. -/
structure BuildInv (g : Adjacency) : Prop where
  known : ∀ n d, g.Dep n d → d ∈ g.keys
  named : "" ∉ g.keys

theorem addInitialDependencies_spec (nodeId : String) (next : List String) (g : Adjacency)
    {g' : Adjacency} (h : addInitialDependencies nodeId next g = .ok g') :
    AddedNodes next g g' ∧ ∀ d ∈ next, d ∈ g'.keys := by
  induction next generalizing g with
  | nil =>
    cases h
    exact ⟨⟨fun _ => rfl, fun _ h => h, fun h => h⟩, by simp⟩
  | cons d rest ih =>
    rw [addInitialDependencies] at h
    cases hid : assertId d "dependency id" with
    | error err => simp [hid, bind, Except.bind] at h
    | ok u =>
      simp only [hid, bind, Except.bind] at h
      by_cases hself : d = nodeId
      · simp [hself, throw, throwThe, MonadExceptOf.throw] at h
      · simp only [hself, if_false] at h
        obtain ⟨h1, h2⟩ := ih _ h
        refine ⟨h1.step (assertId_ok hid), fun x hx => ?_⟩
        rcases List.mem_cons.mp hx with rfl | hx
        · exact h1.keys_sub x ((mem_keys_addMissing g x x).mpr (Or.inl rfl))
        · exact h2 x hx

theorem addInitialNodes_spec (nodes : List FrontierNode) (g : Adjacency) (hg : BuildInv g)
    {g' : Adjacency} (h : addInitialNodes nodes g = .ok g') : BuildInv g' := by
  induction nodes generalizing g with
  | nil =>
    cases h
    exact hg
  | cons node rest ih =>
    rw [addInitialNodes] at h
    cases hid : assertId node.id "node id" with
    | error err => simp [hid, bind, Except.bind] at h
    | ok u =>
      simp only [hid, bind, Except.bind] at h
      cases hadd : addInitialDependencies node.id (unique node.dependsOn) g with
      | error err => simp [hadd] at h
      | ok g1 =>
        simp only [hadd] at h
        obtain ⟨h1, h2⟩ := addInitialDependencies_spec _ _ _ hadd
        refine ih _ ⟨?_, ?_⟩ h
        · intro n d hd
          refine (OrderedMap.mem_keys_set _).mpr (Or.inr ?_)
          have hd' : d ∈ neighbours (g1.set node.id _) n := hd
          rw [neighbours_set] at hd'
          split_ifs at hd'
          · exact h2 d ((OrderedSet.mem_ofList (l := unique node.dependsOn)).mp hd')
          · rw [h1.neighbours_eq] at hd'
            exact h1.keys_sub d (hg.known n d hd')
        · intro hmem
          rcases (OrderedMap.mem_keys_set _).mp hmem with he | hmem
          · exact assertId_ok hid he.symm
          · exact h1.named hg.named hmem

theorem neighbours_foldl_set (l : List String) (g : Adjacency) (h : ∀ n, g.neighbours n = [])
    (n : String) : neighbours (l.foldl (fun g id => OrderedMap.set g id ∅) g) n = [] := by
  induction l generalizing g with
  | nil => exact h n
  | cons id l ih =>
    rw [List.foldl_cons]
    refine ih _ fun m => ?_
    rw [neighbours_set]
    split_ifs
    · rfl
    · exact h m

theorem mem_neighbours_initialDependents (g : Adjacency) (n d : String) :
    n ∈ neighbours (initialDependents g) d ↔ g.Dep n d := by
  have hfold : ∀ (l : List (String × OrderedSet String)) (g0 : Adjacency),
      n ∈ neighbours (l.foldl (fun g p => p.2.elems.foldl (fun g d => g.addEdge d p.1) g) g0) d
        ↔ (∃ p ∈ l, p.1 = n ∧ d ∈ p.2.elems) ∨ n ∈ g0.neighbours d := by
    intro l
    induction l with
    | nil => simp
    | cons p l ih =>
      intro g0
      rw [List.foldl_cons, ih, mem_neighbours_foldl_addEdge]
      simp only [List.mem_cons, exists_eq_or_imp]
      have hcomm : (d ∈ p.2.elems ∧ n = p.1) ↔ (p.1 = n ∧ d ∈ p.2.elems) := by
        rw [and_comm, eq_comm]
      rw [hcomm, or_left_comm, or_assoc]
  unfold initialDependents
  rw [hfold, neighbours_foldl_set _ _ (fun _ => rfl)]
  simp only [List.not_mem_nil, or_false]
  constructor
  · rintro ⟨⟨x, set⟩, hp, rfl, hd⟩
    have hget := g.get?_eq_some_iff.mpr hp
    simpa [Dep, neighbours, hget] using hd
  · intro hd
    obtain ⟨set, hget⟩ := g.mem_keys.mp (g.mem_keys_of_neighbour hd)
    refine ⟨(n, set), g.get?_eq_some_iff.mp hget, rfl, ?_⟩
    simpa [Dep, neighbours, hget] using hd

theorem create_graph {nodes : List FrontierNode} {g : Adjacency} (hg : addInitialNodes nodes ∅ = .ok g)
    (hacyc : assertAcyclicGraph g = .ok ()) (hdeps : e.dependencies = g)
    (hdents : e.dependents = initialDependents g) : e.GraphInv := by
  have hbuild := addInitialNodes_spec nodes ∅ ⟨fun n d hd => absurd hd List.not_mem_nil, List.not_mem_nil⟩ hg
  have hdep : e.DependsOn = g.Dep := by
    funext a b
    unfold DependsOn
    rw [hdeps]
  refine ⟨fun n d => ?_, ?_, ?_, ?_⟩
  · unfold Edge
    rw [hdep, hdents, mem_neighbours_initialDependents]
  · rw [hdep, hdeps]
    exact hbuild.known
  · rw [hdep]
    exact assertAcyclicGraph_sound hacyc
  · rw [hdeps]
    exact hbuild.named

end IncrementalFrontierEngine

/-!
# Proofs: the remaining operations keep the engine settled
-/

namespace IncrementalFrontierEngine

variable {e e' : IncrementalFrontierEngine}

theorem settled_rebuild (hg : e.GraphInv) (hdirect : e.DirectOk) (htrusted : e.trusted = true)
    (hok : e.rebuildDirtyState.frontierBudgetExceeded = false) :
    e.rebuildDirtyState.invalidateAllCaches.Settled := by
  obtain ⟨-, hframe, hprop⟩ := rebuildDirtyState_spec hg hdirect hok
  have hg' := hframe.graphInv hg
  refine ⟨⟨hg'.mirror, hg'.known, hg'.acyclic, hg'.named⟩,
    hprop.congr rfl rfl rfl rfl rfl hprop.entries_le rfl, hframe.trusted.trans htrusted, ?_⟩
  intro n entry hentry
  cases hentry

theorem replaceStatus_spec (h : e.Settled) (nodeId : String) (status : FrontierStatus)
    (hok : (e.replaceStatus nodeId status).1.frontierBudgetExceeded = false) :
    ImpactSpec e [nodeId] (e.replaceStatus nodeId status) := by
  unfold replaceStatus at hok ⊢
  have h0 := h.reset
  have hreach0 : e.resetFrontierWorkBudget.Reach = e.Reach := rfl
  generalize e.resetFrontierWorkBudget = e₀ at h0 hreach0 hok ⊢
  cases hid : assertId nodeId "node id" with
  | error err =>
    rw [hid] at hok
    exact ⟨h0, fun impact him => by cases him⟩
  | ok u =>
    rw [hid] at hok
    dsimp only at hok ⊢
    by_cases hhas : (!e₀.dependencies.has nodeId) = true
    · rw [if_pos hhas] at hok ⊢
      exact ⟨h0, fun impact him => by cases him⟩
    rw [if_neg hhas] at hok ⊢
    have hknown : nodeId ∈ e₀.dependencies.keys := e₀.dependencies.has_eq_true.mp (by simpa using hhas)
    generalize hdirty : (if status = .fresh then e₀.directDirty.erase nodeId
      else (e₀.directDirty.erase nodeId).set nodeId status) = dirty' at hok ⊢
    have hother : ∀ r, r ≠ nodeId → dirty'.get? r = e₀.directDirty.get? r := by
      intro r hr
      rw [← hdirty]
      split_ifs
      · exact OrderedMap.get?_erase_of_ne _ hr
      · rw [OrderedMap.get?_set_of_ne _ _ hr, OrderedMap.get?_erase_of_ne _ hr]
    have hself : ∀ t, dirty'.get? nodeId = some t → t ≠ .fresh := by
      intro t ht
      rw [← hdirty] at ht
      split_ifs at ht with hfresh
      · rw [OrderedMap.get?_erase_self] at ht
        cases ht
      · rw [OrderedMap.get?_set_self] at ht
        exact (Option.some.inj ht) ▸ hfresh
    have hg1 : ({ e₀ with directDirty := dirty', generation := e₀.generation + 1 } :
        IncrementalFrontierEngine).GraphInv := h0.graph.congr rfl rfl
    have hdirect : ({ e₀ with directDirty := dirty', generation := e₀.generation + 1 } :
        IncrementalFrontierEngine).DirectOk := by
      intro r t ht
      by_cases hr : r = nodeId
      · subst hr
        exact ⟨hself t ht, hknown⟩
      · exact h0.indexed.directOk r t ((hother r hr).symm.trans ht)
    obtain ⟨-, hframe, hprop⟩ := rebuildDirtyState_spec hg1 hdirect hok
    have hmem : ∀ x, x ∈ e₀.descendantClosure nodeId ↔ e₀.Reach nodeId x :=
      mem_descendantClosure h0.graph
    refine ⟨h0.invalidate (hframe.graphInv hg1) hprop (hframe.trusted.trans h0.trusted)
      hframe.dependencies hframe.graphRevision hframe.frontierCache ?_, ?_⟩
    · intro r
      by_cases hr : r = nodeId
      · exact .inr fun n hn => (hmem n).mpr (hr ▸ hn)
      · refine .inl ?_
        rw [hframe.directDirty]
        exact hother r hr
    · intro impact him x
      cases him
      rw [mem_sortStrings, ← OrderedSet.mem_def, hmem x, ← hreach0]
      simp

/-! ## `resolve` -/

theorem bury_indexed (h : e.Settled) {id : String} (hid : id ∈ e.directDirty.keys) (w g : Nat)
    (counts : OrderedMap String Nat) :
    ({ e with
      generation := g
      directDirty := e.directDirty.erase id
      inactiveDirtyRoots := e.inactiveDirtyRoots.add id
      inactiveRootEntryCounts := counts
      tombstonedRootEntries := w } : IncrementalFrontierEngine).Propagating ∅ ∅ := by
  have hI := h.indexed
  have hdead : ∀ r, r ∈ e.inactiveDirtyRoots.add id ↔ r = id ∨ r ∈ e.dead :=
    fun r => OrderedSet.mem_add
  have hget : ∀ r t, (e.directDirty.erase id).get? r = some t → r ≠ id ∧ e.directDirty.get? r = some t := by
    intro r t ht
    rw [OrderedMap.get?_erase] at ht
    split_ifs at ht with hr
    exact ⟨hr, ht⟩
  refine ⟨hI.status_dirty, hI.reach, ?_, hI.nodes_reach, hI.nodes_mem, ?_, hI.entries_le, hI.closure,
    ?_, ?_, fun r t ht => hI.dirty_severe r t (hget r t ht).2,
    fun r t ht => hI.dirty_known r t (hget r t ht).2, ?_,
    fun r t ht hr => hI.seeded r t (hget r t ht).2 hr⟩
  · intro n r s hs
    by_cases hr : r = id
    · exact .inl ((hdead r).mpr (Or.inl hr))
    · rcases hI.sound n r s hs with hd | ⟨t, ht, hle⟩
      · exact .inl ((hdead r).mpr (Or.inr hd))
      · refine .inr ⟨t, ?_, hle⟩
        rw [OrderedMap.get?_erase_of_ne _ hr]
        exact ht
  · intro r hr n hn
    rcases (hdead r).mp hr with rfl | hr
    · exact (h.mem_rootNodes hid n).mpr hn
    · exact hI.dead_nodes r hr n hn
  · exact fun n hn hclean => hI.frontier n hn
      (fun r s hs hd => hclean r s hs ((hdead r).mpr (Or.inr hd)))
  · exact fun n r s hn hr => hI.closed n r s hn (fun hd => hr ((hdead r).mpr (Or.inr hd)))
  · intro r t ht hr
    obtain ⟨hne, ht⟩ := hget r t ht
    rcases (hdead r).mp hr with he | hd
    · exact hne he
    · exact hI.dirty_alive r t ht hd

theorem resolve_settled (h : e.Settled) (nodeId : String)
    (hallowed : e.directDirty.get? nodeId ≠ some .unknown)
    (hok : (e.resolve nodeId).1.frontierBudgetExceeded = false) : (e.resolve nodeId).1.Settled := by
  unfold resolve at hok ⊢
  have h0 := h.reset
  have hdd : e.resetFrontierWorkBudget.directDirty = e.directDirty := rfl
  rw [← hdd] at hallowed
  generalize e.resetFrontierWorkBudget = e₀ at h0 hallowed hok ⊢
  cases hid : assertId nodeId "node id" with
  | error err =>
    rw [hid] at hok
    exact h0
  | ok u =>
    rw [hid] at hok
    dsimp only at hok ⊢
    by_cases hhas : (!e₀.dependencies.has nodeId) = true
    · rw [if_pos hhas] at hok ⊢
      exact h0
    rw [if_neg hhas] at hok ⊢
    cases hget : e₀.directDirty.get? nodeId with
    | none =>
      rw [hget] at hok
      exact h0
    | some status =>
      rw [hget] at hok
      have hkey : nodeId ∈ e₀.directDirty.keys := e₀.directDirty.mem_keys_of_get? hget
      have hburied := bury_indexed h0 hkey
      -- the targets are the nodes that have the root
      generalize haffected : sortStrings _ = affected at hok ⊢
      have htargets : ∀ n, e₀.Reach nodeId n → n ∈ affected := by
        intro n hn
        have hmem := (h0.mem_rootNodes hkey n).mpr hn
        rw [← haffected, mem_sortStrings]
        rw [rootNodes] at hmem
        cases hnodes : e₀.dirtyNodesByRoot.get? nodeId with
        | none =>
          rw [hnodes] at hmem
          exact absurd hmem (OrderedSet.not_mem_empty n)
        | some known =>
          rw [hnodes] at hmem
          exact hmem
      have hmain : ∀ e2, e2 = ({ e₀ with
            generation := e₀.generation + 1
            directDirty := e₀.directDirty.erase nodeId
            inactiveDirtyRoots := e₀.inactiveDirtyRoots.add nodeId
            inactiveRootEntryCounts :=
              e₀.inactiveRootEntryCounts.set nodeId ((e₀.rootEntryCounts.get? nodeId).getD 0)
            tombstonedRootEntries :=
              e₀.tombstonedRootEntries + (e₀.rootEntryCounts.get? nodeId).getD 0 } :
              IncrementalFrontierEngine) →
          ((if e2.tombstonedRootEntries > e2.maxWork then e2.failClosed
            else e2).invalidateTargets affected).frontierBudgetExceeded = false →
          ((if e2.tombstonedRootEntries > e2.maxWork then e2.failClosed
            else e2).invalidateTargets affected).Settled := by
        intro e2 he2 hok2
        by_cases hfull : e2.tombstonedRootEntries > e2.maxWork
        · rw [if_pos hfull] at hok2
          cases hok2
        · rw [if_neg hfull] at hok2 ⊢
          subst he2
          refine h0.invalidate (h0.graph.congr rfl rfl) (hburied _ _ _) h0.trusted rfl rfl rfl ?_
          intro r
          by_cases hr : r = nodeId
          · exact .inr fun n hn => htargets n (hr ▸ hn)
          · exact .inl (OrderedMap.get?_erase_of_ne _ hr)
      cases status with
      | unknown => exact absurd hget hallowed
      | fresh | stale | invalid => exact hmain _ rfl hok

theorem AddedNodes.dependsOn {requested : List String} {g : Adjacency}
    (hadded : AddedNodes requested e.dependencies g) :
    ({ e with dependencies := g } : IncrementalFrontierEngine).DependsOn = e.DependsOn := by
  funext n d
  unfold DependsOn Dep
  rw [hadded.neighbours_eq]

theorem GraphInv.addedNodes {requested : List String} {g : Adjacency} (hg : e.GraphInv)
    (hadded : AddedNodes requested e.dependencies g) :
    ({ e with dependencies := g } : IncrementalFrontierEngine).GraphInv := by
  refine ⟨fun n d => ?_, fun n d hd => ?_, ?_, hadded.named hg.named⟩
  · rw [hadded.dependsOn]
    exact hg.mirror n d
  · rw [hadded.dependsOn] at hd
    exact hadded.keys_sub d (hg.known n d hd)
  · rw [hadded.dependsOn]
    exact hg.acyclic

theorem Settled.addedNodes {requested : List String} {g : Adjacency} (h : e.Settled)
    (hadded : AddedNodes requested e.dependencies g) :
    ({ e with dependencies := g } : IncrementalFrontierEngine).Settled := by
  refine ⟨h.graph.addedNodes hadded, ?_, h.trusted, ?_⟩
  · have hI := h.indexed
    exact { hI with
      dirty_known := fun r t ht => hadded.keys_sub r (hI.dirty_known r t ht)
      frontier := hI.frontier
      closed := hI.closed }
  · exact fun n entry h1 h2 => (h.cached n entry h1 h2).congr hadded.dependsOn (fun _ _ => rfl)

theorem setDependencies_settled (h : e.Settled) (id : String) (dependsOn : List String)
    (hok : (e.setDependencies id dependsOn).1.frontierBudgetExceeded = false) :
    (e.setDependencies id dependsOn).1.Settled := by
  unfold setDependencies at hok ⊢
  have h0 := h.reset
  generalize e.resetFrontierWorkBudget = e₀ at h0 hok ⊢
  cases hid : assertId id "node id" with
  | error err =>
    rw [hid] at hok
    exact h0
  | ok u =>
    rw [hid] at hok
    dsimp only at hok ⊢
    obtain ⟨hadded, hall⟩ := addMissingNodes_spec id (unique dependsOn) e₀.dependencies
    generalize addMissingNodes id (unique dependsOn) e₀.dependencies = p at hadded hall hok ⊢
    obtain ⟨g, res⟩ := p
    cases res with
    | error err => exact h0.addedNodes hadded
    | ok u =>
      dsimp only at hadded hall hok ⊢
      cases hacyc : assertAcyclic (OrderedMap.set g id (OrderedSet.ofList (unique dependsOn))) id with
      | error err => exact h0
      | ok u =>
        rw [hacyc] at hok
        have hg := setDependencies_graph h0.graph hadded (fun d hd => (hall rfl d hd).1)
          (assertId_ok hid) hacyc
        refine settled_rebuild (hg.congr rfl rfl) ?_ h0.trusted hok
        intro r t ht
        obtain ⟨hsevere, hr⟩ := h0.indexed.directOk r t ht
        exact ⟨hsevere, (OrderedMap.mem_keys_set _).mpr (Or.inr (hadded.keys_sub r hr))⟩

theorem addNode_settled (h : e.Settled) (id : String) (dependsOn : List String)
    (hok : (e.addNode id dependsOn).1.frontierBudgetExceeded = false) :
    (e.addNode id dependsOn).1.Settled := by
  unfold addNode at hok ⊢
  cases hid : assertId id "node id" with
  | error err => exact h
  | ok u =>
    rw [hid] at hok
    by_cases hhas : e.dependencies.has id = true
    · rw [if_pos hhas]
      exact h
    · rw [if_neg hhas] at hok ⊢
      exact setDependencies_settled h id dependsOn hok

theorem removeNode_settled (h : e.Settled) (id : String)
    (hok : (e.removeNode id).1.frontierBudgetExceeded = false) : (e.removeNode id).1.Settled := by
  unfold removeNode at hok ⊢
  have h0 := h.reset
  generalize e.resetFrontierWorkBudget = e₀ at h0 hok ⊢
  cases hid : assertId id "node id" with
  | error err =>
    rw [hid] at hok
    exact h0
  | ok u =>
    rw [hid] at hok
    dsimp only at hok ⊢
    by_cases hhas : (!e₀.dependencies.has id) = true
    · rw [if_pos hhas]
      exact h0
    rw [if_neg hhas] at hok ⊢
    by_cases hdents : ((e₀.dependents.get? id).getD ∅).size > 0
    · rw [if_pos hdents]
      exact h0
    rw [if_neg hdents] at hok ⊢
    have hg := removeNode_graph h0.graph (Nat.le_zero.mp (Nat.le_of_not_lt hdents))
    refine settled_rebuild (hg.congr rfl rfl) ?_ h0.trusted hok
    intro r t ht
    rw [OrderedMap.get?_erase] at ht
    split_ifs at ht with hr
    obtain ⟨hsevere, hknown⟩ := h0.indexed.directOk r t ht
    exact ⟨hsevere, (OrderedMap.mem_keys_erase _).mpr ⟨hr, hknown⟩⟩

theorem checkStates_spec (states : List (String × FrontierStatus))
    (next : OrderedMap String FrontierStatus) (seen : OrderedSet String)
    (hnext : ∀ r t, next.get? r = some t → t ≠ .fresh ∧ r ∈ e.dependencies.keys)
    {res : OrderedMap String FrontierStatus × OrderedSet String}
    (h : e.checkStates states next seen = .ok res) :
    ∀ r t, res.1.get? r = some t → t ≠ .fresh ∧ r ∈ e.dependencies.keys := by
  induction states generalizing next seen with
  | nil =>
    cases h
    exact hnext
  | cons p rest ih =>
    obtain ⟨id, status⟩ := p
    rw [checkStates] at h
    cases hid : assertId id "node id" with
    | error err => simp [hid, bind, Except.bind] at h
    | ok u =>
      simp only [hid, bind, Except.bind] at h
      by_cases hseen : id ∈ seen
      · simp [hseen, throw, throwThe, MonadExceptOf.throw] at h
      by_cases hhas : e.dependencies.has id = true
      · simp only [hseen, hhas, Bool.not_true, Bool.false_eq_true, if_false] at h
        refine ih _ _ ?_ h
        intro r t ht
        split_ifs at ht with hfresh
        · exact hnext r t ht
        · rw [OrderedMap.get?_set] at ht
          split_ifs at ht with hr
          · rw [hr]
            exact ⟨(Option.some.inj ht) ▸ hfresh, e.dependencies.has_eq_true.mp hhas⟩
          · exact hnext r t ht
      · simp [hseen, hhas, throw, throwThe, MonadExceptOf.throw] at h

theorem restoreStates_settled (h : e.Settled) (states : List (String × FrontierStatus))
    (hok : (e.restoreStates states).1.frontierBudgetExceeded = false) :
    (e.restoreStates states).1.Settled := by
  unfold restoreStates at hok ⊢
  dsimp only at hok ⊢
  have h0 := h.reset
  generalize e.resetFrontierWorkBudget = e₀ at h0 hok ⊢
  cases hcheck : e₀.checkStates states ∅ ∅ with
  | error err => exact h0
  | ok res =>
    obtain ⟨next, seen⟩ := res
    rw [hcheck] at hok
    dsimp only at hok ⊢
    cases hfind : e₀.dependencies.keys.find? (fun id => decide (id ∉ seen)) with
    | some id =>
      exact h0
    | none =>
      rw [hfind] at hok
      exact settled_rebuild (h0.graph.congr rfl rfl)
        (checkStates_spec states ∅ ∅ (fun r t ht => by cases ht) hcheck) rfl hok

theorem settled_initial (hg : e.GraphInv) (hdirty : e.directDirty = ∅) (hcache : e.frontierCache = ∅)
    (htrusted : e.trusted = true) (hok : e.frontierBudgetExceeded = false) :
    e.rebuildDirtyState.Settled := by
  have hrebuild : e.rebuildDirtyState = e.clearIndexes := by
    unfold rebuildDirtyState clearIndexes
    rw [hdirty]
    exact if_neg (Nat.lt_irrefl 0)
  have hdirect : e.DirectOk := by
    intro r t ht
    rw [hdirty] at ht
    cases ht
  have hsettled := settled_rebuild hg hdirect htrusted (by rw [hrebuild]; exact hok)
  have hsame : e.clearIndexes.invalidateAllCaches = e.clearIndexes := by
    unfold invalidateAllCaches clearIndexes
    rw [hcache]
  rw [hrebuild, hsame] at hsettled
  rw [hrebuild]
  exact hsettled

theorem create_settled {maxWork : Nat} {nodes : List FrontierNode} (h : create maxWork nodes = .ok e) : e.Settled := by
  rw [create] at h
  cases hadd : addInitialNodes nodes ∅ with
  | error err => simp [hadd, bind, Except.bind] at h
  | ok g =>
    simp only [hadd, bind, Except.bind] at h
    cases hacyc : assertAcyclicGraph g with
    | error err => simp [hacyc] at h
    | ok u =>
      simp only [hacyc, pure, Except.pure, Except.ok.injEq] at h
      subst h
      exact settled_initial (create_graph hadd hacyc rfl rfl) rfl rfl rfl rfl

end IncrementalFrontierEngine

end Premise.FrontierEngine
