import Premise.Reference.Proofs.RecomputeProofs

/-!
# Proofs: the statuses of memories

Every operation keeps the statuses consistent, leaves the memories that do not depend on changed ones as
they are, and keeps direct invalidations.
-/

namespace Premise.Reference

open Collections Control Premise.Graph Js FrontierEngine
  FrontierEngine.Adjacency Protocol.V1 Relation

variable {id : String} {r : StateRecord} {status : MemoryStatus} {roots memoryIds : List String}
    {input : MemoryEnvelope} {state : MemoryState}

namespace MemoryStateStore

variable {s s' s₁ : MemoryStateStore} {clock : Option Int}

theorem Consistent.congr (h : s.Consistent id) (hget : s'.records.get? id = s.records.get? id)
    (hdep : ∀ d, s'.graph.Dep id d ↔ s.graph.Dep id d)
    (hstatus : ∀ d, s.graph.Dep id d → s'.dependencyStatus d = s.dependencyStatus d) :
    s'.Consistent id := by
  intro r hr
  rw [hget] at hr
  rw [h r hr]
  exact (aggregated_congr hdep hstatus r).symm

theorem Sound.congr (h : Sound s) (hgraph : s'.graph.GraphInv)
    (hdep : ∀ n d, s'.graph.Dep n d ↔ s.graph.Dep n d)
    (hkeys : ∀ n, n ∈ s'.graph.dependencies.keys ↔ n ∈ s.graph.dependencies.keys)
    (hrecords : s'.records = s.records) (hcount : s'.ttlRecordCount = s.ttlRecordCount) : Sound s' where
  framed :=
    { graph := hgraph
      nodes := by
        intro n
        rw [hkeys, hrecords]
        exact h.framed.nodes n
      declared := by
        intro id r hget d
        rw [hrecords] at hget
        rw [hdep]
        exact h.framed.declared id r hget d
      count := by rw [hcount, hrecords]; exact h.framed.count
      records := by rw [hrecords]; exact h.framed.records }
  consistent := by
    intro id
    refine (h.consistent id).congr (by rw [hrecords]) (hdep id) fun d _ => ?_
    exact dependencyStatus_congr (by rw [hrecords])

/-- What an operation does to the memories. -/
structure Effect (s s' : MemoryStateStore) (changed replaced : String → Prop) : Prop where
  sound : Sound s'
  outside : ∀ id, ¬ (∃ c, changed c ∧ s'.graph.Reaches id c) →
    s'.records.get? id = s.records.get? id
  kept : ∀ id r, s.records.get? id = some r → r.directlyInvalid = true → ¬ replaced id →
    ∃ r', s'.records.get? id = some r' ∧ r'.directlyInvalid = true

variable {changed replaced : String → Prop}

theorem Effect.refl (h : Sound s) : Effect s s changed replaced where
  sound := h
  outside := fun _ _ => rfl
  kept := fun _ r hget hdirect _ => ⟨r, hget, hdirect⟩

theorem returnState_fst (s : MemoryStateStore) (id : String) : (s.returnState id).1 = s := by
  unfold returnState
  cases s.stateOf id with
  | none | some => rfl

theorem returnState_ok (h : s.records.get? id = some r) : s.returnState id = (s, .ok ⟨id, r.envelope, r.status⟩) := by
  unfold returnState stateOf
  rw [h]
  rfl

/-! ## New memories -/

theorem recordInv_createRecord (envelope : MemoryEnvelope) : RecordInv (createRecord envelope) where
  invalid := decide_eq_true_iff
  declared := decide_eq_true
  expiry := rfl
  ttl := nofun

theorem own_createRecord (envelope : MemoryEnvelope) : (createRecord envelope).own = (createRecord envelope).status := by
  unfold createRecord StateRecord.own
  by_cases hinvalid : envelope.validity.status = .invalid
  · rw [if_pos (decide_eq_true hinvalid), hinvalid]
  · rw [if_neg (by simpa using hinvalid), if_neg (by simp)]

/-- The store with a new memory, before its status is computed. -/
def added (s : MemoryStateStore) (graph : DependencyGraph) (envelope : MemoryEnvelope) :
    MemoryStateStore :=
  ({ s with graph := graph }.addRecord envelope).indexSources envelope

variable {graph : DependencyGraph} {envelope : MemoryEnvelope}

theorem get?_added (s : MemoryStateStore) (graph : DependencyGraph) (envelope : MemoryEnvelope)
    (id : String) : (s.added graph envelope).records.get? id =
      if id = envelope.memoryId then some (createRecord envelope) else s.records.get? id :=
  OrderedMap.get?_set _ _ _ _

theorem not_dep_new (h : Framed s) (hnew : s.records.get? envelope.memoryId = none) (n : String) :
    ¬ s.graph.Dep n envelope.memoryId := by
  intro hdep
  have hkey := (h.nodes _).mp (h.graph.known n _ hdep)
  exact (s.records.get?_eq_none_iff.mp hnew) hkey

theorem framed_added (h : Framed s) (hnew : s.records.get? envelope.memoryId = none)
    (hlinked : s.graph.Linked graph envelope.memoryId envelope.dependsOn)
    (hknown : ∀ d ∈ envelope.dependsOn, d ∈ s.records.keys) : Framed (s.added graph envelope) where
  graph := hlinked.inv
  nodes := by
    intro id
    have hkeys : id ∈ (s.added graph envelope).records.keys ↔
        id = envelope.memoryId ∨ id ∈ s.records.keys := OrderedMap.mem_keys_set _
    show id ∈ graph.dependencies.keys ↔ _
    rw [hkeys, hlinked.keys, h.nodes]
    constructor
    · rintro (hid | hid)
      · exact .inr (hknown id hid)
      · exact hid
    · exact .inr
  declared := by
    intro id r hget d
    rw [get?_added] at hget
    show graph.Dep id d ↔ _
    rw [hlinked.dependencies]
    split_ifs at hget ⊢ with hid
    · cases hget
      exact Iff.rfl
    · exact h.declared id r hget d
  count := by
    have hset := s.records.countWhere_set StateRecord.isTtl envelope.memoryId (createRecord envelope)
    rw [hnew] at hset
    have hcount := h.count
    show s.ttlRecordCount + _ = ((s.records.set envelope.memoryId (createRecord envelope)).countWhere
      StateRecord.isTtl : Int)
    have httl : (createRecord envelope).isTtl = true ↔ envelope.validity.policy = .ttl :=
      decide_eq_true_iff
    rw [Option.any_none] at hset
    by_cases hpolicy : envelope.validity.policy = .ttl
    · rw [if_pos (httl.mpr hpolicy)] at hset
      rw [if_pos hpolicy, hcount]
      simp only [Bool.false_eq_true, if_false] at hset
      omega
    · rw [if_neg (fun hr => hpolicy (httl.mp hr))] at hset
      rw [if_neg hpolicy, hcount]
      simp only [Bool.false_eq_true, if_false] at hset
      omega
  records := by
    intro id r hget
    rw [get?_added] at hget
    split_ifs at hget with hid
    · cases hget
      exact recordInv_createRecord envelope
    · exact h.records id r hget

theorem consistent_added (h : Sound s) (hnew : s.records.get? envelope.memoryId = none)
    (hlinked : s.graph.Linked graph envelope.memoryId envelope.dependsOn) (hid : id ≠ envelope.memoryId) :
    (s.added graph envelope).Consistent id := by
  refine (h.consistent id).congr ?_ ?_ ?_
  · rw [get?_added, if_neg hid]
  · intro d
    show graph.Dep id d ↔ _
    rw [hlinked.dependencies, if_neg hid]
  · intro d hd
    refine dependencyStatus_congr ?_
    rw [get?_added, if_neg]
    rintro rfl
    exact not_dep_new h.framed hnew id hd

theorem effect_new (hsound : Sound s') (hnew : s.records.get? envelope.memoryId = none)
    (hget : ∀ id, id ≠ envelope.memoryId → s'.records.get? id = s.records.get? id) :
    Effect s s' (· = envelope.memoryId) replaced where
  sound := hsound
  outside := by
    intro id hid
    refine hget id ?_
    rintro rfl
    exact hid ⟨_, rfl, ReflTransGen.refl⟩
  kept := by
    intro id r hr hdirect _
    have hne : id ≠ envelope.memoryId := by
      rintro rfl
      rw [hnew] at hr
      cases hr
    exact ⟨r, (hget id hne).trans hr, hdirect⟩

theorem register_cases (s : MemoryStateStore) (input : MemoryEnvelope) :
    (∃ result, s.register input = (s, result) ∧ ∀ state, result = .ok state →
      ∃ r, s.records.get? input.memoryId = some r ∧ r.envelope = input) ∨
    (s.records.get? input.memoryId = none ∧ input.dependsOn = [] ∧ WellFormed input ∧
      s.register input = (s.added (s.graph.ensureNode input.memoryId) input,
        .ok ⟨input.memoryId, input, input.validity.status⟩)) := by
  unfold register
  cases hparse : parseMemoryEnvelope input with
  | error err => exact .inl ⟨_, rfl, nofun⟩
  | ok envelope =>
    obtain ⟨rfl, hvalid⟩ := parseMemoryEnvelope_ok hparse
    have hformed := wellFormed_of_valid hvalid
    dsimp only
    cases hget : s.records.get? envelope.memoryId with
    | some existing =>
      dsimp only
      split_ifs with hsame
      · refine .inl ⟨_, returnState_ok hget, fun _ _ => ⟨existing, rfl, hsame⟩⟩
      · exact .inl ⟨_, rfl, nofun⟩
    | none =>
      split_ifs with hdepends
      · exact .inl ⟨_, rfl, nofun⟩
      · have hadd : s.graph.addNode envelope.memoryId = .ok (s.graph.ensureNode envelope.memoryId) :=
          if_neg hformed.named
        rw [hadd]
        have hrecord := get?_added s (s.graph.ensureNode envelope.memoryId) envelope envelope.memoryId
        rw [if_pos rfl] at hrecord
        exact .inr ⟨rfl, not_not.mp hdepends, hformed, returnState_ok hrecord⟩

theorem linked_ensureNode {g : DependencyGraph} (hgraph : g.GraphInv) {nodeId : String}
    (hnew : nodeId ∉ g.dependencies.keys) : g.Linked (g.ensureNode nodeId) nodeId [] where
  inv := hgraph.ensureNode nodeId
  dependencies := by
    intro n d
    unfold DependencyGraph.Dep
    rw [(DependencyGraph.sameEdges_ensureNode g nodeId).dependencies]
    split_ifs with hn
    · subst hn
      exact ⟨fun hd => absurd (mem_keys_of_neighbour _ hd) hnew, nofun⟩
    · exact Iff.rfl
  keys := by
    intro n
    rw [DependencyGraph.keys_ensureNode]
    exact ⟨Or.inr, fun h => h.resolve_left List.not_mem_nil⟩

theorem effect_register (h : Sound s) (input : MemoryEnvelope) :
    Effect s (s.register input).1 (· = input.memoryId) replaced := by
  rcases s.register_cases input with ⟨result, heq, -⟩ | ⟨hnew, hdepends, hformed, heq⟩
  · rw [heq]
    exact Effect.refl h
  · rw [heq]
    have hkey : input.memoryId ∉ s.graph.dependencies.keys := by
      rw [h.framed.nodes]
      exact s.records.get?_eq_none_iff.mp hnew
    have hlinked := linked_ensureNode h.framed.graph hkey
    rw [← hdepends] at hlinked
    refine effect_new ⟨framed_added h.framed hnew hlinked ?_, ?_⟩ hnew ?_
    · rw [hdepends]
      exact nofun
    · intro id
      by_cases hid : id = input.memoryId
      · intro r hget
        rw [get?_added, if_pos hid] at hget
        cases hget
        have hnone : (s.graph.ensureNode input.memoryId).dependencies.neighbours id = [] := by
          refine List.eq_nil_iff_forall_not_mem.mpr fun d hd => ?_
          have hdep := (hlinked.dependencies id d).mp hd
          rw [if_pos hid, hdepends] at hdep
          cases hdep
        have hagg : (s.added (s.graph.ensureNode input.memoryId) input).aggregated id
            (createRecord input) = (createRecord input).own := by
          unfold aggregated
          rw [show (s.added (s.graph.ensureNode input.memoryId) input).graph
            = s.graph.ensureNode input.memoryId from rfl, hnone]
          rfl
        rw [hagg, own_createRecord]
      · exact consistent_added h hnew hlinked hid
    · intro id hid
      rw [get?_added, if_neg hid]

theorem find?_unknown_eq_none {s : MemoryStateStore} {ids : List String}
    (h : ids.find? (fun id => !s.records.has id) = none) : ∀ id ∈ ids, id ∈ s.records.keys := by
  intro id hid
  have hhas := List.find?_eq_none.mp h id hid
  rw [Bool.not_eq_true, Bool.not_eq_false'] at hhas
  exact s.records.has_eq_true.mp hhas

def derived (s : MemoryStateStore) (graph : DependencyGraph) (clock : Option Int)
    (envelope : MemoryEnvelope) : MemoryStateStore :=
  (s.added graph envelope).recompute clock
    ((s.added graph envelope).nowFor clock [envelope.memoryId]) envelope.memoryId

theorem derive_cases (h : Framed s) (clock : Option Int) (input : MemoryEnvelope) :
    (∃ err, s.derive clock input = (s, .error err)) ∨
    (s.records.get? input.memoryId = none ∧ WellFormed input ∧ input.dependsOn ≠ [] ∧
      (∀ d ∈ input.dependsOn, d ∈ s.records.keys) ∧
      ∃ graph, s.graph.Linked graph input.memoryId input.dependsOn ∧
        s.derive clock input = (s.derived graph clock input).returnState input.memoryId) := by
  unfold derive
  cases hparse : parseMemoryEnvelope input with
  | error err => exact .inl ⟨_, rfl⟩
  | ok envelope =>
    obtain ⟨rfl, hvalid⟩ := parseMemoryEnvelope_ok hparse
    have hformed := wellFormed_of_valid hvalid
    dsimp only
    split_ifs with hknown hdepends hself
    · exact .inl ⟨_, rfl⟩
    · exact .inl ⟨_, rfl⟩
    · exact .inl ⟨_, rfl⟩
    · split
      case h_1 => exact .inl ⟨_, rfl⟩
      case h_2 hfind =>
        have hnew := s.records.has_eq_false.mp (Bool.eq_false_iff.mpr hknown)
        have hkey : envelope.memoryId ∉ s.graph.dependencies.keys := by
          rw [h.nodes]
          exact hnew
        have hids : ∀ d ∈ envelope.dependsOn, d ≠ "" ∧ d ≠ envelope.memoryId := by
          intro d hd
          refine ⟨hformed.dependsOn_named d hd, ?_⟩
          rintro rfl
          exact hself hd
        obtain ⟨graph, hset, hlinked⟩ :=
          DependencyGraph.setDependencies_new h.graph hformed.named hkey hids
        rw [hset]
        exact .inr ⟨s.records.get?_eq_none_iff.mpr hnew, hformed, hdepends,
          find?_unknown_eq_none hfind, graph, hlinked, rfl⟩

theorem recomputed_derived (s : MemoryStateStore) (graph : DependencyGraph) (clock : Option Int)
    (envelope : MemoryEnvelope) (hself : ∀ id, ¬ graph.Dep id id) :
    Recomputed clock (· ∈ [envelope.memoryId]) (s.added graph envelope) (s.derived graph clock envelope) :=
  recomputed_foldl (s := s.added graph envelope) (nowFor_getD _ _ _) (List.nodup_singleton _) hself
    (List.pairwise_singleton _ _)

theorem effect_derive (h : Sound s) (input : MemoryEnvelope) :
    Effect s (s.derive clock input).1 (· = input.memoryId) replaced := by
  rcases derive_cases h.framed clock input with
    ⟨err, heq⟩ | ⟨hnew, hformed, -, hknown, graph, hlinked, heq⟩
  · rw [heq]
    exact Effect.refl h
  · rw [heq, returnState_fst]
    have hself : ∀ id, ¬ graph.Dep id id := fun id hid =>
      not_transGen_self hlinked.inv.acyclic id (TransGen.single hid)
    have hrecomputed := recomputed_derived s graph clock input hself
    have hframed := framed_added h.framed hnew hlinked hknown
    refine effect_new (sound_recomputed hframed ?_ ?_ hrecomputed) hnew ?_
    · intro id d hdep hd
      rw [List.mem_singleton] at hd ⊢
      subst hd
      by_contra hid
      rw [show (s.added graph input).graph = graph from rfl, hlinked.dependencies, if_neg hid] at hdep
      exact not_dep_new h.framed hnew id hdep
    · intro id hid
      rw [List.mem_singleton] at hid
      exact consistent_added h hnew hlinked hid
    · intro id hid
      rw [hrecomputed.outside id (fun hmem => hid (List.mem_singleton.mp hmem)), get?_added, if_neg hid]

/-! ## `replace` -/

/-- The store with the graph changed and the record replaced. -/
def replacing (s : MemoryStateStore) (graph : DependencyGraph) (current : StateRecord)
    (envelope : MemoryEnvelope) : MemoryStateStore :=
  { s with graph := graph }.putReplacement current envelope

theorem replace_cases (h : Framed s) (clock : Option Int) (input : MemoryEnvelope) :
    (∃ err, s.replace clock input = (s, .error err)) ∨
    (∃ err, input.memoryId ∈ s.records.keys ∧ s.replace clock input =
      ({ s with graph := s.graph.ensureNode input.memoryId }, .error err)) ∨
    (WellFormed input ∧ (∀ d ∈ input.dependsOn, d ∈ s.records.keys) ∧
      ∃ current graph, s.records.get? input.memoryId = some current ∧ s.graph.Linked graph input.memoryId input.dependsOn ∧
        s.replace clock input = { s with graph := graph }.replaceWith clock current input) := by
  unfold replace
  cases hparse : parseMemoryEnvelope input with
  | error err => exact .inl ⟨_, rfl⟩
  | ok envelope =>
    obtain ⟨rfl, hvalid⟩ := parseMemoryEnvelope_ok hparse
    have hformed := wellFormed_of_valid hvalid
    dsimp only
    cases hget : s.records.get? envelope.memoryId with
    | none => exact .inl ⟨_, rfl⟩
    | some current =>
      dsimp only
      split
      case h_1 => exact .inl ⟨_, rfl⟩
      case h_2 hfind =>
        rcases @DependencyGraph.setDependencies_cases _ _ envelope.dependsOn h.graph
          hformed.named with ⟨err, hset⟩ | ⟨graph, hset, hlinked⟩
        · rw [hset]
          exact .inr (Or.inl ⟨err, s.records.mem_keys_of_get? hget, rfl⟩)
        · rw [hset]
          exact .inr (Or.inr ⟨hformed, find?_unknown_eq_none hfind, current, graph, rfl, hlinked, rfl⟩)

variable {current : StateRecord}

theorem get?_replacing (s : MemoryStateStore) (graph : DependencyGraph) (current : StateRecord)
    (envelope : MemoryEnvelope) (id : String) :
    (s.replacing graph current envelope).records.get? id =
      if id = envelope.memoryId then some (replaceRecord current envelope)
      else s.records.get? id :=
  OrderedMap.get?_set _ _ _ _

theorem recordInv_replaceRecord (current : StateRecord) (envelope : MemoryEnvelope) :
    RecordInv (replaceRecord current envelope) where
  invalid := decide_eq_true_iff
  declared := decide_eq_true
  expiry := rfl
  ttl := nofun

theorem framed_replacing (h : Framed s) (hcurrent : s.records.get? envelope.memoryId = some current)
    (hlinked : s.graph.Linked graph envelope.memoryId envelope.dependsOn)
    (hknown : ∀ d ∈ envelope.dependsOn, d ∈ s.records.keys) :
    Framed (s.replacing graph current envelope) where
  graph := hlinked.inv
  nodes := by
    intro id
    have hmem := s.records.mem_keys_of_get? hcurrent
    have hkeys : id ∈ (s.replacing graph current envelope).records.keys ↔
        id = envelope.memoryId ∨ id ∈ s.records.keys := OrderedMap.mem_keys_set _
    show id ∈ graph.dependencies.keys ↔ _
    rw [hkeys, hlinked.keys, h.nodes]
    constructor
    · rintro (hid | hid)
      · exact .inr (hknown id hid)
      · exact hid
    · exact .inr
  declared := by
    intro id r hget d
    rw [get?_replacing] at hget
    show graph.Dep id d ↔ _
    rw [hlinked.dependencies]
    split_ifs at hget ⊢ with hid
    · cases hget
      exact Iff.rfl
    · exact h.declared id r hget d
  count := by
    have hset := s.records.countWhere_set StateRecord.isTtl envelope.memoryId (replaceRecord current envelope)
    rw [hcurrent, Option.any_some] at hset
    have hcount := h.count
    show s.ttlRecordCount + _ = ((s.records.set envelope.memoryId
      (replaceRecord current envelope)).countWhere StateRecord.isTtl : Int)
    have httl : (replaceRecord current envelope).isTtl = decide (envelope.validity.policy = .ttl) :=
      rfl
    rw [httl] at hset
    rw [hcount]
    cases hold : current.isTtl <;> cases hpolicy : decide (envelope.validity.policy = .ttl) <;>
      rw [hold, hpolicy] at hset <;> simp at hset ⊢ <;> omega
  records := by
    intro id r hget
    rw [get?_replacing] at hget
    split_ifs at hget with hid
    · cases hget
      exact recordInv_replaceRecord current envelope
    · exact h.records id r hget

theorem reaches_linked {g g' : DependencyGraph} {nodeId : String} {ids : List String}
    (hlinked : g.Linked g' nodeId ids) {d : String} (hdep : g.Dep id d) (hid : id ≠ nodeId) :
    g'.Dep id d := by
  rw [hlinked.dependencies, if_neg hid]
  exact hdep

theorem consistent_replacing (h : Sound s) (hlinked : s.graph.Linked graph envelope.memoryId envelope.dependsOn)
    (hid : ¬ graph.Reaches id envelope.memoryId) :
    (s.replacing graph current envelope).Consistent id := by
  have hne : id ≠ envelope.memoryId := by
    rintro rfl
    exact hid ReflTransGen.refl
  refine (h.consistent id).congr ?_ ?_ ?_
  · rw [get?_replacing, if_neg hne]
  · intro d
    show graph.Dep id d ↔ _
    rw [hlinked.dependencies, if_neg hne]
  · intro d hd
    refine dependencyStatus_congr ?_
    rw [get?_replacing, if_neg]
    rintro rfl
    exact hid (ReflTransGen.single (reaches_linked hlinked hd hne))

theorem replaceWith_spec (h : Sound s)
    (hcurrent : s.records.get? envelope.memoryId = some current)
    (hlinked : s.graph.Linked graph envelope.memoryId envelope.dependsOn)
    (hknown : ∀ d ∈ envelope.dependsOn, d ∈ s.records.keys) :
    ∃ s', Sound s' ∧ { s with graph := graph }.replaceWith clock current envelope = s'.returnState envelope.memoryId ∧
      Recomputed clock (· ∈ (s.replacing graph current envelope).collectDependents [envelope.memoryId])
        (s.replacing graph current envelope) s' := by
  have hframed := framed_replacing h.framed hcurrent hlinked hknown
  obtain ⟨s', hset, hrecomputed⟩ := recomputeSet_spec hframed.graph (nowFor_getD (s.replacing graph current envelope) clock
      ((s.replacing graph current envelope).collectDependents [envelope.memoryId]).elems)
    ((s.replacing graph current envelope).collectDependents [envelope.memoryId])
  refine ⟨s', ?_, ?_, hrecomputed⟩
  · refine sound_recomputed hframed (collectDependents_closed hframed.graph _) ?_ hrecomputed
    intro id hid
    rw [mem_collectDependents hframed.graph] at hid
    exact consistent_replacing h hlinked (fun hreach => hid ⟨_, List.mem_singleton_self _, hreach⟩)
  · unfold replaceWith recomputeAffected
    unfold replacing at hset
    rw [hset]

theorem effect_replace (h : Sound s) (input : MemoryEnvelope) : Effect s (s.replace clock input).1 (· = input.memoryId)
      (fun id => input.memoryId = id ∧ ∃ state, (s.replace clock input).2 = .ok state) := by
  rcases replace_cases h.framed clock input with
    ⟨err, heq⟩ | ⟨err, hmem, heq⟩ | ⟨hformed, hknown, current, graph, hcurrent, hlinked, heq⟩
  · rw [heq]
    exact Effect.refl h
  · rw [heq]
    refine ⟨h.congr (h.framed.graph.ensureNode _) ?_ ?_ rfl rfl, fun _ _ => rfl,
      fun _ r hget hdirect _ => ⟨r, hget, hdirect⟩⟩
    · intro n d
      unfold DependencyGraph.Dep
      rw [(DependencyGraph.sameEdges_ensureNode s.graph input.memoryId).dependencies]
    · intro n
      rw [DependencyGraph.keys_ensureNode]
      refine ⟨?_, Or.inr⟩
      rintro (rfl | hn)
      · exact (h.framed.nodes _).mpr hmem
      · exact hn
  · obtain ⟨s', hsound, hreturn, hrecomputed⟩ := @replaceWith_spec s clock _ _ _ h hcurrent hlinked hknown
    rw [heq, hreturn, returnState_fst]
    have hgraph : s'.graph = graph := hrecomputed.updated.graph
    refine ⟨hsound, ?_, ?_⟩
    · intro id hid
      have hout : id ∉ (s.replacing graph current input).collectDependents [input.memoryId] := by
        rw [mem_collectDependents (framed_replacing h.framed hcurrent hlinked hknown).graph]
        rintro ⟨c, hc, hreach⟩
        rw [hgraph] at hid
        exact hid ⟨c, List.mem_singleton.mp hc, hreach⟩
      rw [hrecomputed.outside id hout, get?_replacing, if_neg]
      rintro rfl
      exact hid ⟨_, rfl, ReflTransGen.refl⟩
    · intro id r hget hdirect hnot
      have hne : id ≠ input.memoryId := by
        rintro rfl
        obtain ⟨r1, hr1, -⟩ := hrecomputed.updated.records _ _ ((get?_replacing s graph current input _).trans (if_pos rfl))
        exact hnot ⟨rfl, _, by rw [returnState_ok hr1]⟩
      have hold : (s.replacing graph current input).records.get? id = some r := by
        rw [get?_replacing, if_neg hne]
        exact hget
      obtain ⟨r', hr', -, -, hkept⟩ := hrecomputed.updated.records id r hold
      exact ⟨r', hr', hkept hdirect⟩

/-! ## `markStatusesWithPrevious` -/

def markedRecord (status : MemoryStatus) (r : StateRecord) : StateRecord :=
  { r with
      baseStatus := nextStatus r status
      directlyInvalid := r.directlyInvalid || decide (nextStatus r status = .invalid) }

theorem recordInv_markedRecord (status : MemoryStatus) (h : RecordInv r) :
    RecordInv (markedRecord status r) where
  invalid := by
    unfold markedRecord nextStatus
    by_cases hdirect : r.directlyInvalid = true
    · by_cases hstatus : status = .invalid
      · simp [hdirect, hstatus]
      · simp [hdirect, hstatus]
    · simp [hdirect]
  declared := by
    intro hinvalid
    unfold markedRecord
    rw [h.declared hinvalid, Bool.true_or]
  expiry := h.expiry
  ttl := h.ttl

/-- The listed memories are marked. -/
structure Marked (status : MemoryStatus) (roots : List String) (s s' : MemoryStateStore) : Prop where
  updated : Updated s s'
  outside : ∀ id, id ∉ roots → s'.records.get? id = s.records.get? id
  inside : ∀ id ∈ roots, ∀ r, s.records.get? id = some r →
    s'.records.get? id = some (markedRecord status r)

theorem markRecord_eq (hget : s.records.get? id = some r) :
    markRecord status s id = s.setRecord id (markedRecord status r) := by
  unfold markRecord
  rw [hget]
  rfl

theorem marked_foldl (status : MemoryStatus) (hnodup : roots.Nodup) (hknown : ∀ id ∈ roots, id ∈ s.records.keys) :
    Marked status roots s (roots.foldl (markRecord status) s) := by
  induction roots generalizing s with
  | nil => exact ⟨Updated.refl s, fun _ _ => rfl, nofun⟩
  | cons a roots ih =>
    obtain ⟨ha, hnodup⟩ := List.nodup_cons.mp hnodup
    obtain ⟨r, hget⟩ := s.records.mem_keys.mp (hknown a List.mem_cons_self)
    have hfirst : Updated s (markRecord status s a) := by
      rw [markRecord_eq hget]
      refine updated_setRecord hget rfl (recordInv_markedRecord status) fun hdirect => ?_
      unfold markedRecord
      rw [hdirect, Bool.true_or]
    have hother : ∀ id, id ≠ a → (markRecord status s a).records.get? id = s.records.get? id := by
      intro id hid
      rw [markRecord_eq hget]
      exact OrderedMap.get?_set_of_ne _ _ hid
    have hrest := ih hnodup (fun id hid => (hfirst.mem_keys id).mpr (hknown id (List.mem_cons_of_mem _ hid)))
    rw [List.foldl_cons]
    refine ⟨hfirst.trans hrest.updated, ?_, ?_⟩
    · intro id hid
      rw [List.mem_cons, not_or] at hid
      rw [hrest.outside id hid.2, hother id hid.1]
    · intro id hid r' hget'
      rcases List.mem_cons.mp hid with rfl | hmem
      · obtain rfl := Option.some.inj (hget.symm.trans hget')
        rw [hrest.outside id ha, markRecord_eq hget]
        exact OrderedMap.get?_set_self _ _ _
      · refine hrest.inside id hmem r' ?_
        rw [hother id (by rintro rfl; exact ha hmem), hget']

theorem Marked.dependencyStatus (h : Marked status roots s s') (id : String) :
    s'.dependencyStatus id = s.dependencyStatus id := by
  by_cases hid : id ∈ roots
  · unfold MemoryStateStore.dependencyStatus
    cases hget : s.records.get? id with
    | none => rw [h.updated.unknown id hget]
    | some r =>
      rw [h.inside id hid r hget]
      rfl
  · exact dependencyStatus_congr (h.outside id hid)

/-- The roots are `STALE`, and are marked `STALE`. -/
def AlreadyStale (s : MemoryStateStore) (status : MemoryStatus) (roots : List String) : Prop :=
  ∀ id ∈ roots, ∀ r, s.records.get? id = some r → nextStatus r status = .stale ∧ r.status = .stale

theorem mark_cases (h : Framed s) (clock : Option Int) (memoryIds : List String)
    (status : MemoryStatus) :
    (∃ err, s.markStatusesWithPrevious clock memoryIds status = (s, .error err) ∧ ∃ id ∈ memoryIds, id ∉ s.records.keys) ∨
    ((∀ id ∈ memoryIds, id ∈ s.records.keys) ∧ ∃ marked s', Marked status (unique memoryIds) s marked ∧
      s.markStatusesWithPrevious clock memoryIds status =
        (s', .ok (changesOf s s' (marked.collectDependents (unique memoryIds)))) ∧
      (Recomputed clock (· ∈ marked.collectDependents (unique memoryIds)) marked s' ∨
        (s' = marked ∧ AlreadyStale s status (unique memoryIds) ∧
          ∀ id ∈ marked.collectDependents (unique memoryIds), ∀ r, marked.records.get? id = some r →
            r.isTtl = false))) := by
  unfold markStatusesWithPrevious
  dsimp only
  split
  case h_1 memoryId hfind =>
    have hunknown := List.find?_some hfind
    rw [Bool.not_eq_true', OrderedMap.has_eq_false] at hunknown
    exact .inl ⟨_, rfl, memoryId, mem_unique.mp (List.mem_of_find?_eq_some hfind), hunknown⟩
  case h_2 hfind =>
    have hknown := find?_unknown_eq_none hfind
    have hmarked := marked_foldl status (unique_nodup memoryIds) hknown
    refine .inr ⟨fun id hid => hknown id (mem_unique.mpr hid), ?_⟩
    generalize (unique memoryIds).foldl (markRecord status) s = marked at hmarked
    have hframed := h.updated hmarked.updated
    split_ifs with hrecompute
    · obtain ⟨s', hset, hrecomputed⟩ := recomputeSet_spec hframed.graph
        (nowFor_getD marked clock (marked.collectDependents (unique memoryIds)).elems)
        (marked.collectDependents (unique memoryIds))
      rw [hset]
      exact ⟨marked, s', hmarked, rfl, Or.inl hrecomputed⟩
    · rw [Bool.or_eq_true, not_or, Bool.not_eq_true, Bool.not_eq_false', Bool.not_eq_true,
        Option.isSome_eq_false_iff, Option.isNone_iff_eq_none] at hrecompute
      refine ⟨marked, marked, hmarked, rfl, Or.inr ⟨rfl, ?_, ?_⟩⟩
      · intro id hid r hget
        have hall := List.all_eq_true.mp hrecompute.1 id hid
        rw [hget, Option.any_some, decide_eq_true_eq] at hall
        exact hall
      · intro id hid r hget
        exact nowFor_eq_none hframed hrecompute.2 hid hget

theorem sound_alreadyStale (h : Sound s) (hmarked : Marked status roots s s') (hstale : AlreadyStale s status roots) :
    Sound s' where
  framed := h.framed.updated hmarked.updated
  consistent := by
    have hdep : ∀ id d, s'.graph.Dep id d ↔ s.graph.Dep id d := by
      intro id d
      rw [hmarked.updated.graph]
    intro id r' hget
    rw [aggregated_congr (hdep id) (fun d _ => hmarked.dependencyStatus d)]
    by_cases hid : id ∈ roots
    · obtain ⟨r, hold, -⟩ := hmarked.updated.record_of hget
      rw [hmarked.inside id hid r hold] at hget
      cases hget
      obtain ⟨hnext, hstatus⟩ := hstale id hid r hold
      have hconsistent := h.consistent id r hold
      rw [hstatus] at hconsistent
      have hdirect : r.directlyInvalid = false := by
        by_contra hinvalid
        rw [Bool.not_eq_false] at hinvalid
        unfold nextStatus at hnext
        split_ifs at hnext with hboth
        exact hboth ⟨hinvalid, by rw [hnext]; decide⟩
      have hown : (markedRecord status r).own = .stale := by
        unfold StateRecord.own markedRecord
        simp [hdirect, hnext]
      -- The dependencies are at most `STALE`, as the memory is.
      have hle := (maxOf_le_iff.mp hconsistent.symm.le).2
      have hagg : s.aggregated id (markedRecord status r) = .stale := by
        refine le_antisymm (maxOf_le_iff.mpr ⟨hown.le, hle⟩) ?_
        rw [← hown]
        exact le_maxOf _ _
      rw [hagg]
      exact hstatus
    · rw [hmarked.outside id hid] at hget
      exact h.consistent id r' hget

theorem sound_marked (h : Sound s) (hmarked : Marked status roots s s₁)
    (hrecomputed : Recomputed clock (· ∈ s₁.collectDependents roots) s₁ s') : Sound s' := by
  have hframed := h.framed.updated hmarked.updated
  refine sound_recomputed hframed (collectDependents_closed hframed.graph _) ?_ hrecomputed
  intro id hid
  have hroot : id ∉ roots := by
    intro hmem
    exact hid ((mem_collectDependents hframed.graph _ _).mpr ⟨id, hmem, ReflTransGen.refl⟩)
  refine (h.consistent id).congr (hmarked.outside id hroot) ?_ fun d _ => hmarked.dependencyStatus d
  intro d
  rw [hmarked.updated.graph]

theorem effect_mark (h : Sound s) (memoryIds : List String) (status : MemoryStatus) :
    Effect s (s.markStatusesWithPrevious clock memoryIds status).1 (· ∈ memoryIds) replaced := by
  rcases mark_cases h.framed clock memoryIds status with
    ⟨err, heq, -⟩ | ⟨hknown, marked, s', hmarked, heq, hrecomputed | ⟨rfl, hstale, -⟩⟩
  · rw [heq]
    exact Effect.refl h
  · rw [heq]
    have hframed := h.framed.updated hmarked.updated
    have hupdated := hmarked.updated.trans hrecomputed.updated
    refine ⟨sound_marked h hmarked hrecomputed, ?_, ?_⟩
    · intro id hid
      have hout : id ∉ marked.collectDependents (unique memoryIds) := by
        rw [mem_collectDependents hframed.graph]
        rintro ⟨c, hc, hreach⟩
        rw [← hrecomputed.updated.graph] at hreach
        exact hid ⟨c, mem_unique.mp hc, hreach⟩
      have hroot : id ∉ unique memoryIds :=
        fun hmem => hid ⟨id, mem_unique.mp hmem, ReflTransGen.refl⟩
      rw [hrecomputed.outside id hout, hmarked.outside id hroot]
    · intro id r hget hdirect _
      obtain ⟨r', hget', -, -, hkept⟩ := hupdated.records id r hget
      exact ⟨r', hget', hkept hdirect⟩
  · rw [heq]
    refine ⟨sound_alreadyStale h hmarked hstale, ?_, ?_⟩
    · intro id hid
      exact hmarked.outside id fun hmem => hid ⟨id, mem_unique.mp hmem, ReflTransGen.refl⟩
    · intro id r hget hdirect _
      obtain ⟨r', hget', -, -, hkept⟩ := hmarked.updated.records id r hget
      exact ⟨r', hget', hkept hdirect⟩

/-! ## `check` -/

def ExpiryChanges (s : MemoryStateStore) (clock : Option Int) (id : String) : Prop :=
  ∃ r, s.records.get? id = some r ∧ r.isTtl = true ∧ r.ttlExpired ≠ r.expired clock

theorem evaluated_of_unchanged (hget : s.records.get? id = some r) (h : ¬ s.ExpiryChanges clock id) :
    evaluated clock r = r := by
  unfold evaluated
  split_ifs with httl
  · have hsame : r.ttlExpired = r.expired clock := by
      by_contra hne
      exact h ⟨r, hget, httl, hne⟩
    rw [← hsame]
  · rfl

/-- The expiry of the listed memories is evaluated, and those whose expiry changes are collected. -/
structure Evaluated (clock : Option Int) (l : List String) (s s' : MemoryStateStore)
    (expired : List String) : Prop where
  updated : Updated s s'
  outside : ∀ id, id ∉ l → s'.records.get? id = s.records.get? id
  inside : ∀ id ∈ l, ∀ r, s.records.get? id = some r →
    s'.records.get? id = some (evaluated clock r)
  expired : ∀ id, id ∈ expired ↔ id ∈ l ∧ s.ExpiryChanges clock id

theorem expiryChanges_congr (h : s'.records.get? id = s.records.get? id) :
    s'.ExpiryChanges clock id ↔ s.ExpiryChanges clock id := by
  unfold ExpiryChanges
  rw [h]

theorem checkExpiry_foldl (l : List String) (hnodup : l.Nodup) (s : MemoryStateStore)
    (before : List String) : ∃ s' expired, l.foldl (checkExpiry clock) (s, before) = (s', before ++ expired) ∧
      Evaluated clock l s s' expired := by
  induction l generalizing s before with
  | nil => exact ⟨s, [], by rw [List.append_nil]; rfl, Updated.refl s, fun _ _ => rfl, nofun, by simp⟩
  | cons a l ih =>
    obtain ⟨ha, hnodup⟩ := List.nodup_cons.mp hnodup
    -- The first memory is changed, or passed over.
    obtain ⟨s₁, first, hfirst, hevaluated⟩ : ∃ s₁ first, checkExpiry clock (s, before) a = (s₁, before ++ first) ∧
        Evaluated clock [a] s s₁ first := by
      unfold checkExpiry
      cases hget : s.records.get? a with
      | none =>
        refine ⟨s, [], by rw [List.append_nil], Updated.refl s, fun _ _ => rfl, ?_, ?_⟩
        · intro id hid r hr
          rw [List.mem_singleton.mp hid, hget] at hr
          cases hr
        · intro id
          refine ⟨nofun, ?_⟩
          rintro ⟨hid, r, hr, -⟩
          rw [List.mem_singleton.mp hid, hget] at hr
          cases hr
      | some r =>
        dsimp only
        split_ifs with hchange
        · refine ⟨_, [a], rfl, updated_setRecord hget rfl ?_ (fun h => h), ?_, ?_, ?_⟩
          · exact fun hr => ⟨hr.invalid, hr.declared, hr.expiry, fun _ => hchange.1⟩
          · intro id hid
            rw [List.mem_singleton] at hid
            exact OrderedMap.get?_set_of_ne _ _ hid
          · intro id hid r' hr'
            rw [List.mem_singleton] at hid
            subst hid
            obtain rfl := Option.some.inj (hget.symm.trans hr')
            refine (OrderedMap.get?_set_self _ _ _).trans ?_
            unfold evaluated
            rw [if_pos hchange.1]
          · intro id
            refine ⟨fun hid => ⟨hid, ?_⟩, fun hid => hid.1⟩
            rw [List.mem_singleton.mp hid]
            exact ⟨r, hget, hchange⟩
        · have hnot : ¬ s.ExpiryChanges clock a := by
            rintro ⟨r', hr', hchange'⟩
            obtain rfl := Option.some.inj (hget.symm.trans hr')
            exact hchange hchange'
          refine ⟨s, [], by rw [List.append_nil], Updated.refl s, fun _ _ => rfl, ?_, ?_⟩
          · intro id hid r' hr'
            rw [List.mem_singleton] at hid
            subst hid
            rw [hr', evaluated_of_unchanged hr' hnot]
          · intro id
            refine ⟨nofun, ?_⟩
            rintro ⟨hid, hchange'⟩
            rw [List.mem_singleton.mp hid] at hchange'
            exact absurd hchange' hnot
    obtain ⟨s', rest, hrest, hevaluated'⟩ := ih hnodup s₁ (before ++ first)
    refine ⟨s', first ++ rest, ?_, hevaluated.updated.trans hevaluated'.updated, ?_, ?_, ?_⟩
    · rw [List.foldl_cons, hfirst, hrest, List.append_assoc]
    · intro id hid
      rw [List.mem_cons, not_or] at hid
      rw [hevaluated'.outside id hid.2, hevaluated.outside id (by simpa using hid.1)]
    · intro id hid r hr
      rcases List.mem_cons.mp hid with rfl | hmem
      · rw [hevaluated'.outside id ha]
        exact hevaluated.inside id (List.mem_singleton_self _) r hr
      · refine hevaluated'.inside id hmem r ?_
        rw [hevaluated.outside id (by rw [List.mem_singleton]; rintro rfl; exact ha hmem), hr]
    · intro id
      rw [List.mem_append, hevaluated.expired, hevaluated'.expired, List.mem_singleton, List.mem_cons]
      by_cases hid : id = a
      · subst hid
        simp [ha]
      · rw [expiryChanges_congr (hevaluated.outside id (by simpa using hid))]
        simp [hid]

/-- What `check` makes of the statuses: the memories in the closure of the requested ones have consistent
    statuses, with their expiry evaluated. -/
structure Checked (clock : Option Int) (memoryIds : List String) (s s' : MemoryStateStore) : Prop where
  sound : Sound s'
  updated : Updated s s'
  outside : ∀ id, ¬ (∃ c, s.ExpiryChanges clock c ∧ s'.graph.Reaches id c) →
    s'.records.get? id = s.records.get? id
  evaluated : ∀ id, (∃ c ∈ memoryIds, s.graph.Reaches c id) → ∀ r, s.records.get? id = some r →
    ∃ r', s'.records.get? id = some r' ∧ r'.own = ownAt clock r

theorem own_evaluated (h : RecordInv r) (clock : Option Int) : (evaluated clock r).own = ownAt clock r := by
  unfold evaluated StateRecord.own ownAt
  by_cases httl : r.isTtl = true
  · rw [if_pos httl]
    simp only [httl, true_and]
  · have hflag : r.ttlExpired = false := by
      by_contra hflag
      rw [Bool.not_eq_false] at hflag
      exact httl (h.ttl hflag)
    rw [if_neg httl]
    simp only [hflag, httl, Bool.false_eq_true, false_and]

theorem checked_refl (h : Sound s) (hnone : s.nowFor clock (s.collectDependencies memoryIds).elems = none) :
    Checked clock memoryIds s s where
  sound := h
  updated := Updated.refl s
  outside := fun _ _ => rfl
  evaluated := by
    intro id hid r hget
    have hmem := (mem_collectDependencies h.framed.graph memoryIds id).mpr hid
    have httl := nowFor_eq_none h.framed hnone hmem hget
    refine ⟨r, hget, ?_⟩
    rw [← own_evaluated (h.framed.records id r hget), evaluated_of_not_ttl httl]

theorem checked_recomputed (h : Sound s) {memoryIds expired : List String}
    (hevaluated : Evaluated clock (s.collectDependencies memoryIds).elems s s₁ expired)
    (hrecomputed : Recomputed clock (· ∈ s₁.collectDependents expired) s₁ s') :
    Checked clock memoryIds s s' := by
  have hframed := h.framed.updated hevaluated.updated
  have hgraph : s'.graph = s.graph := hrecomputed.updated.graph.trans hevaluated.updated.graph
  -- A memory whose expiry does not change keeps its record.
  have hsame : ∀ id, id ∉ expired → s₁.records.get? id = s.records.get? id := by
    intro id hid
    by_cases hmem : id ∈ (s.collectDependencies memoryIds).elems
    · have hnot : ¬ s.ExpiryChanges clock id :=
        fun hchange => hid ((hevaluated.expired id).mpr ⟨hmem, hchange⟩)
      cases hget : s.records.get? id with
      | none => exact hevaluated.updated.unknown id hget
      | some r => rw [hevaluated.inside id hmem r hget, evaluated_of_unchanged hget hnot]
    · exact hevaluated.outside id hmem
  have hstay : ∀ id, id ∉ s₁.collectDependents expired → id ∉ expired ∧ ∀ d, s₁.graph.Dep id d → d ∉ expired := by
    intro id hid
    rw [mem_collectDependents hframed.graph] at hid
    exact ⟨fun hmem => hid ⟨id, hmem, ReflTransGen.refl⟩, fun d hd hmem => hid ⟨d, hmem, ReflTransGen.single hd⟩⟩
  refine ⟨?_, hevaluated.updated.trans hrecomputed.updated, ?_, ?_⟩
  · refine sound_recomputed hframed (collectDependents_closed hframed.graph _) ?_ hrecomputed
    intro id hid
    obtain ⟨hself, hdeps⟩ := hstay id hid
    refine (h.consistent id).congr (hsame id hself) ?_ ?_
    · intro d
      rw [hevaluated.updated.graph]
    · intro d hd
      rw [← hevaluated.updated.graph] at hd
      exact dependencyStatus_congr (hsame d (hdeps d hd))
  · intro id hid
    have hout : id ∉ s₁.collectDependents expired := by
      rw [mem_collectDependents hframed.graph]
      rintro ⟨c, hc, hreach⟩
      rw [hgraph, ← hevaluated.updated.graph] at hid
      exact hid ⟨c, ((hevaluated.expired c).mp hc).2, hreach⟩
    rw [hrecomputed.outside id hout, hsame id (hstay id hout).1]
  · intro id hid r hget
    have hmem := (mem_collectDependencies h.framed.graph memoryIds id).mpr hid
    have hfirst := hevaluated.inside id hmem r hget
    have hown := own_evaluated (h.framed.records id r hget) clock
    by_cases hin : id ∈ s₁.collectDependents expired
    · refine ⟨_, hrecomputed.inside id hin _ hfirst, ?_⟩
      have htwice : MemoryStateStore.evaluated clock (MemoryStateStore.evaluated clock r)
          = MemoryStateStore.evaluated clock r := by
        unfold MemoryStateStore.evaluated
        by_cases httl : r.isTtl = true
        · rw [if_pos httl]
          exact if_pos httl
        · rw [if_neg httl, if_neg httl]
      rw [own_status, htwice]
      exact hown
    · exact ⟨_, (hrecomputed.outside id hin).trans hfirst, hown⟩

theorem check_cases (h : Sound s) (clock : Option Int) (memoryIds : List String) :
    (∃ err, s.check clock memoryIds = (s, .error err) ∧ ∃ id ∈ memoryIds, s.records.has id = false) ∨
    ((∀ id ∈ memoryIds, id ∈ s.records.keys) ∧ ∃ s',
      s.check clock memoryIds = (s', .ok (s'.report memoryIds)) ∧ Checked clock memoryIds s s') := by
  unfold check
  split
  case h_1 memoryId hfind =>
    refine .inl ⟨_, rfl, memoryId, List.mem_of_find?_eq_some hfind, ?_⟩
    have hhas := List.find?_some hfind
    rwa [Bool.not_eq_true'] at hhas
  case h_2 hfind =>
    refine .inr ⟨find?_unknown_eq_none hfind, ?_⟩
    split_ifs with hcount
    · refine ⟨s, rfl, checked_refl h ?_⟩
      unfold nowFor
      rw [if_pos hcount]
    · dsimp only
      cases hnow : s.nowFor clock (s.collectDependencies memoryIds).elems with
      | none => exact ⟨s, rfl, checked_refl h hnow⟩
      | some nowMs =>
        have hclock : nowMs = clock := by
          have hgetD := nowFor_getD s clock (s.collectDependencies memoryIds).elems
          rw [hnow] at hgetD
          exact hgetD
        subst hclock
        obtain ⟨s₁, expired, hfold, hevaluated⟩ := @checkExpiry_foldl nowMs
          (s.collectDependencies memoryIds).elems (s.collectDependencies memoryIds).nodup s []
        dsimp only
        rw [hfold, List.nil_append]
        dsimp only
        have hframed := h.framed.updated hevaluated.updated
        split_ifs with hempty
        · refine ⟨s₁, rfl, @checked_recomputed s s₁ s₁ nowMs h _ _ hevaluated ?_⟩
          refine ⟨Updated.refl s₁, fun _ _ => rfl, ?_⟩
          intro id hid
          rw [mem_collectDependents hframed.graph, hempty] at hid
          obtain ⟨c, hc, -⟩ := hid
          cases hc
        · obtain ⟨s', hset, hrecomputed⟩ := @recomputeSet_spec s₁ nowMs hframed.graph
            (some nowMs) rfl (s₁.collectDependents expired)
          rw [hset]
          exact ⟨s', rfl, checked_recomputed h hevaluated hrecomputed⟩

theorem effect_check (h : Sound s) (memoryIds : List String) :
    Effect s (s.check clock memoryIds).1 (s.ExpiryChanges clock) replaced := by
  rcases check_cases h clock memoryIds with ⟨err, heq, -⟩ | ⟨-, s', heq, hchecked⟩
  · rw [heq]
    exact Effect.refl h
  · rw [heq]
    refine ⟨hchecked.sound, hchecked.outside, ?_⟩
    intro id r hget hdirect _
    obtain ⟨r', hget', -, -, hkept⟩ := hchecked.updated.records id r hget
    exact ⟨r', hget', hkept hdirect⟩

theorem effect_perform (h : Sound s) (clock : Option Int) (call : StoreCall) :
    Effect s (s.perform clock call) (fun c => s.Changes clock c call)
      (fun id => s.Replaces clock id call) := by
  cases call with
  | register input => exact effect_register h input
  | derive input => exact effect_derive h input
  | replace input => exact effect_replace h input
  | mark memoryIds status => exact effect_mark h memoryIds status
  | check memoryIds => exact effect_check h memoryIds

theorem get?_empty_records (id : String) : ({} : MemoryStateStore).records.get? id = none := rfl

theorem not_dep_empty (n d : String) : ¬ ({} : MemoryStateStore).graph.Dep n d :=
  fun h => absurd h (List.not_mem_nil (a := d))

theorem framed_empty : Framed {} where
  graph :=
    { mirror := fun n d => by
        refine ⟨fun h => absurd h (not_dep_empty n d), fun h => ?_⟩
        exact absurd h (List.not_mem_nil (a := n))
      known := fun n d h => absurd h (not_dep_empty n d)
      acyclic := ⟨fun n => Acc.intro n (fun d h => absurd h (not_dep_empty n d))⟩
      paired := nofun }
  nodes := fun _ => Iff.rfl
  declared := by
    intro id r hget
    rw [get?_empty_records] at hget
    cases hget
  count := rfl
  records := by
    intro id r hget
    rw [get?_empty_records] at hget
    cases hget

theorem sound_empty : Sound {} where
  framed := framed_empty
  consistent := by
    intro id r hget
    rw [get?_empty_records] at hget
    cases hget

theorem sound_of_reachable (h : system.Reachable s) : Sound s := by
  refine h.invariant Sound ?_ ?_
  · rintro s rfl
    exact sound_empty
  · rintro s i s' hsound rfl
    exact (effect_perform hsound i.1 i.2).sound

theorem mem_dependsOn (h : Framed s) (n d : String) : d ∈ s.dependsOn n ↔ s.graph.Dep n d := by
  unfold dependsOn
  cases hget : s.records.get? n with
  | none =>
    refine ⟨nofun, fun hdep => ?_⟩
    have hkey := (h.nodes n).mp (mem_keys_of_neighbour _ hdep)
    exact absurd hkey (s.records.get?_eq_none_iff.mp hget)
  | some r => exact (h.declared n r hget d).symm

theorem acyclic_dependsOn (h : Framed s) : WellFounded (fun d n => d ∈ s.dependsOn n) :=
  wellFounded_mono h.graph.acyclic (fun n d hd => (mem_dependsOn h n d).mp hd)

theorem known_of_dep (h : Framed s) {n d : String} (hdep : s.graph.Dep n d) : d ∈ s.records.keys :=
  (h.nodes d).mp (h.graph.known n d hdep)

theorem status_eq_of_consistent (h : Sound s) {n : String} (hget : s.records.get? n = some r) {l : List String}
    (hl : ∀ d, d ∈ l ↔ s.graph.Dep n d) :
    s.dependencyStatus n = maxOf r.own (l.map s.dependencyStatus) := by
  have hstatus : s.dependencyStatus n = r.status := by
    unfold dependencyStatus
    rw [hget]
    rfl
  rw [hstatus, h.consistent n r hget]
  refine maxOf_congr fun status => ?_
  rw [List.mem_map, List.mem_map]
  exact exists_congr fun d => and_congr_left (fun _ => (hl d).symm)

theorem aggregate_checked (h : Sound s) (hchecked : Checked clock memoryIds s s') (hid : id ∈ memoryIds)
    (hknown : id ∈ s.records.keys) :
    Aggregate (s.ownStatusAt clock) s.dependsOn id (s'.dependencyStatus id) := by
  refine @aggregate_of_consistent _ _ _ _ _ (fun n => n ∈ s.records.keys ∧
      ∃ c ∈ memoryIds, s.graph.Reaches c n) _ (acyclic_dependsOn h.framed) ?_ ?_ _
    ⟨hknown, id, hid, ReflTransGen.refl⟩
  · rintro n ⟨-, c, hc, hreach⟩ d hd
    rw [mem_dependsOn h.framed] at hd
    exact ⟨known_of_dep h.framed hd, c, hc, hreach.tail hd⟩
  · rintro n ⟨hn, hreach⟩
    obtain ⟨r, hget⟩ := s.records.mem_keys.mp hn
    obtain ⟨r', hget', hown⟩ := hchecked.evaluated n hreach r hget
    have hat : s.ownStatusAt clock n = r'.own := by
      unfold ownStatusAt
      rw [hget, hown]
      rfl
    rw [hat]
    refine status_eq_of_consistent hchecked.sound hget' fun d => ?_
    rw [mem_dependsOn h.framed, hchecked.updated.graph]

theorem aggregate_cached (h : Sound s) (hknown : id ∈ s.records.keys) :
    Aggregate s.ownStatus s.dependsOn id (s.dependencyStatus id) := by
  refine @aggregate_of_consistent _ _ _ _ _ (· ∈ s.records.keys) _ (acyclic_dependsOn h.framed) ?_ ?_ _ hknown
  · intro n _ d hd
    rw [mem_dependsOn h.framed] at hd
    exact known_of_dep h.framed hd
  · intro n hn
    obtain ⟨r, hget⟩ := s.records.mem_keys.mp hn
    have hat : s.ownStatus n = r.own := by
      unfold ownStatus
      rw [hget]
      rfl
    rw [hat]
    exact status_eq_of_consistent h hget fun d => mem_dependsOn h.framed n d

theorem report_eq (h : ∀ id ∈ memoryIds, id ∈ s.records.keys) :
    s.report memoryIds = memoryIds.map (fun id =>
      ⟨id, s.dependencyStatus id, usabilityForStatus (s.dependencyStatus id)⟩) := by
  unfold report
  rw [← List.filterMap_eq_map]
  refine List.filterMap_congr fun id hid => ?_
  obtain ⟨r, hget⟩ := s.records.mem_keys.mp (h id hid)
  have hstatus : s.dependencyStatus id = r.status := by
    unfold dependencyStatus
    rw [hget]
    rfl
  unfold stateOf
  rw [hget, Function.comp_apply, hstatus]
  rfl

def DirectlyInvalid (s : MemoryStateStore) (id : String) : Prop :=
  ∃ r, s.records.get? id = some r ∧ r.directlyInvalid = true

theorem status_of_directlyInvalid (h : Sound s) (hinvalid : s.DirectlyInvalid id) :
    ∃ state, s.stateOf id = some state ∧ state.status = .invalid := by
  obtain ⟨r, hget, hdirect⟩ := hinvalid
  refine ⟨⟨id, r.envelope, r.status⟩, ?_, ?_⟩
  · unfold stateOf
    rw [hget]
    rfl
  · have hown : r.own = .invalid := if_pos hdirect
    rw [h.consistent id r hget]
    unfold aggregated
    rw [hown, maxOf_invalid]

theorem directlyInvalid_of_envelope (h : Framed s) (hget : s.records.get? id = some r)
    (hinvalid : r.envelope.validity.status = .invalid) :
    s.DirectlyInvalid id :=
  ⟨r, hget, (h.records id r hget).declared hinvalid⟩

section

variable (h : Sound s) (hinvalid : input.validity.status = .invalid)
include h hinvalid

theorem directlyInvalid_register
    (hok : (s.register input).2 = .ok state) :
    (s.register input).1.DirectlyInvalid input.memoryId := by
  have hsound : Sound (s.register input).1 :=
    (@effect_register s (fun _ => False) h input).sound
  rcases s.register_cases input with ⟨result, heq, hresult⟩ | ⟨-, -, -, heq⟩
  · rw [heq] at hok hsound ⊢
    obtain ⟨r, hget, henvelope⟩ := hresult state hok
    exact directlyInvalid_of_envelope hsound.framed hget (by rw [henvelope]; exact hinvalid)
  · rw [heq] at hsound ⊢
    exact directlyInvalid_of_envelope hsound.framed ((get?_added _ _ _ _).trans (if_pos rfl)) hinvalid

theorem directlyInvalid_derive
    (hok : (s.derive clock input).2 = .ok state) :
    (s.derive clock input).1.DirectlyInvalid input.memoryId := by
  have hsound : Sound (s.derive clock input).1 :=
    (@effect_derive s clock (fun _ => False) h input).sound
  rcases derive_cases h.framed clock input with
    ⟨err, heq⟩ | ⟨-, -, -, -, graph, hlinked, heq⟩
  · rw [heq] at hok
    cases hok
  · rw [heq, returnState_fst] at hsound ⊢
    have hself : ∀ id, ¬ graph.Dep id id := fun id hid =>
      not_transGen_self hlinked.inv.acyclic id (TransGen.single hid)
    have hupdated := (recomputed_derived s graph clock input hself).updated
    obtain ⟨r, hget, henvelope, -⟩ := hupdated.records input.memoryId _ ((get?_added _ _ _ _).trans (if_pos rfl))
    exact directlyInvalid_of_envelope hsound.framed hget (by rw [henvelope]; exact hinvalid)

theorem directlyInvalid_replace
    (hok : (s.replace clock input).2 = .ok state) :
    (s.replace clock input).1.DirectlyInvalid input.memoryId := by
  rcases replace_cases h.framed clock input with
    ⟨err, heq⟩ | ⟨err, -, heq⟩ | ⟨-, hknown, current, graph, hcurrent, hlinked, heq⟩
  · rw [heq] at hok
    cases hok
  · rw [heq] at hok
    cases hok
  · obtain ⟨s', hsound, hreturn, hrecomputed⟩ := @replaceWith_spec s clock _ _ _ h hcurrent hlinked hknown
    rw [heq, hreturn, returnState_fst]
    obtain ⟨r, hget, henvelope, -⟩ := hrecomputed.updated.records input.memoryId _
      ((get?_replacing _ _ _ _ _).trans (if_pos rfl))
    exact directlyInvalid_of_envelope hsound.framed hget (by rw [henvelope]; exact hinvalid)

end

theorem directlyInvalid_mark (h : Sound s) {changes : List StatusChange} (hid : id ∈ memoryIds)
    (hok : (s.markStatusesWithPrevious clock memoryIds .invalid).2 = .ok changes) :
    (s.markStatusesWithPrevious clock memoryIds .invalid).1.DirectlyInvalid id := by
  have hdirect : ∀ r, (markedRecord .invalid r).directlyInvalid = true := by
    intro r
    unfold markedRecord nextStatus
    simp
  rcases mark_cases h.framed clock memoryIds .invalid with
    ⟨err, heq, -⟩ | ⟨hknown, marked, s', hmarked, heq, hcase⟩
  · rw [heq] at hok
    cases hok
  · rw [heq]
    obtain ⟨r, hget⟩ := s.records.mem_keys.mp (hknown id hid)
    have hroot := hmarked.inside id (mem_unique.mpr hid) r hget
    rcases hcase with hrecomputed | ⟨rfl, -, -⟩
    · obtain ⟨r', hget', -, -, hkept⟩ := hrecomputed.updated.records id _ hroot
      exact ⟨r', hget', hkept (hdirect r)⟩
    · exact ⟨_, hroot, hdirect r⟩

theorem directlyInvalid_of_invalidates (h : Sound s) {call : StoreCall} (hcall : s.Invalidates clock id call) :
    (s.perform clock call).DirectlyInvalid id := by
  cases call with
  | register input =>
    obtain ⟨rfl, hinvalid, state, hok⟩ := hcall
    exact directlyInvalid_register h hinvalid hok
  | derive input =>
    obtain ⟨rfl, hinvalid, state, hok⟩ := hcall
    exact directlyInvalid_derive h hinvalid hok
  | replace input =>
    obtain ⟨rfl, hinvalid, state, hok⟩ := hcall
    exact directlyInvalid_replace h hinvalid hok
  | mark memoryIds status =>
    obtain ⟨hid, rfl, changes, hok⟩ := hcall
    exact directlyInvalid_mark h hid hok
  | check memoryIds => exact hcall.elim

end MemoryStateStore

open MemoryStateStore

/-- The statuses of the store are those that the recursion gives. -/
theorem statuses_aggregate : Aggregates where
  checked := by
    intro s hreachable clock memoryIds items hitems
    have hsound := sound_of_reachable hreachable
    rcases check_cases hsound clock memoryIds with ⟨err, heq, -⟩ | ⟨hknown, s', heq, hchecked⟩
    · rw [heq] at hitems
      cases hitems
    · rw [heq] at hitems
      obtain rfl := Except.ok.inj hitems
      rw [report_eq (fun id hid => (hchecked.updated.mem_keys id).mpr (hknown id hid))]
      refine ⟨?_, ?_⟩
      · rw [List.map_map]
        exact List.map_id _
      · intro item hitem
        obtain ⟨id, hid, rfl⟩ := List.mem_map.mp hitem
        exact aggregate_checked hsound hchecked hid (hknown id hid)
  reports := by
    intro s hreachable clock memoryIds hknown
    rcases check_cases (sound_of_reachable hreachable) clock memoryIds with
      ⟨err, -, id, hid, hhas⟩ | ⟨-, s', heq, -⟩
    · rw [hknown id hid] at hhas
      cases hhas
    · exact ⟨_, by rw [heq]⟩
  cached := by
    intro s hreachable memoryId state hstate
    unfold stateOf at hstate
    obtain ⟨r, hget, rfl⟩ := Option.map_eq_some_iff.mp hstate
    have hstatus : s.dependencyStatus memoryId = r.status := by
      unfold dependencyStatus
      rw [hget]
      rfl
    have haggregate := aggregate_cached (sound_of_reachable hreachable)
      (s.records.mem_keys_of_get? hget)
    rw [hstatus] at haggregate
    exact haggregate
  invalid := by
    intro s hreachable clock call memoryId hcall s' hlater
    have hsound := sound_of_reachable hreachable
    have hinv : Sound s' ∧ s'.DirectlyInvalid memoryId := by
      refine hlater.invariant (fun s => Sound s ∧ s.DirectlyInvalid memoryId) ?_ ?_
      · rintro t rfl
        exact ⟨(effect_perform hsound clock call).sound, directlyInvalid_of_invalidates hsound hcall⟩
      · rintro t i t' ⟨ht, r, hget, hdirect⟩ ⟨rfl, hnot⟩
        have heffect := effect_perform ht i.1 i.2
        exact ⟨heffect.sound, heffect.kept memoryId r hget hdirect hnot⟩
    exact status_of_directlyInvalid hinv.1 hinv.2
  untouched := by
    intro s hreachable clock call memoryId hnot
    have heffect := effect_perform (sound_of_reachable hreachable) clock call
    refine heffect.outside memoryId ?_
    rintro ⟨c, hc, hreach⟩
    refine hnot ⟨c, hc, ?_⟩
    exact ReflTransGen.mono (fun n d hd => (mem_dependsOn heffect.sound.framed n d).mpr hd) _ _ hreach

end Premise.Reference
