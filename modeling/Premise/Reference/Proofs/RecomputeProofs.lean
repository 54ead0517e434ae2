import Premise.Reference.Proofs.GraphProofs
import Premise.Reference.Spec

/-!
# Proofs: recomputation

A status is consistent when it is the greatest of the memory's own and the cached ones of its
dependencies. Recomputing a set that contains the dependents of its members makes the statuses in it
consistent, and keeps the others so.
-/

namespace Premise.Reference

open Collections Premise.Graph Js FrontierEngine
  FrontierEngine.Adjacency Protocol.V1 Relation

theorem combine_eq_max (s t : MemoryStatus) : MemoryStateStore.combine s t = max s t := by
  cases s <;> cases t <;> decide

/-- What holds of a record between operations. -/
structure RecordInv (r : StateRecord) : Prop where
  invalid : r.directlyInvalid = true ↔ r.baseStatus = .invalid
  declared : r.envelope.validity.status = .invalid → r.directlyInvalid = true
  expiry : r.expiresAtMs = expiresAtOf r.envelope
  ttl : r.ttlExpired = true → r.isTtl = true

variable {id : String} {r : StateRecord} {nowMs : Option (Option Int)}

namespace MemoryStateStore

variable {s s' s'' : MemoryStateStore} {clock : Option Int}

/-- The graph has the declared dependencies of the memories. -/
structure Framed (s : MemoryStateStore) : Prop where
  graph : s.graph.GraphInv
  nodes : ∀ id, id ∈ s.graph.dependencies.keys ↔ id ∈ s.records.keys
  declared : ∀ id r, s.records.get? id = some r → ∀ d, s.graph.Dep id d ↔ d ∈ r.envelope.dependsOn
  count : s.ttlRecordCount = s.records.countWhere StateRecord.isTtl
  records : ∀ id r, s.records.get? id = some r → RecordInv r

/-- The envelopes, the graph and the sources stay as they are. -/
structure Updated (s s' : MemoryStateStore) : Prop where
  graph : s'.graph = s.graph
  sourceIndex : s'.sourceIndex = s.sourceIndex
  keys : s'.records.keys = s.records.keys
  count : s'.ttlRecordCount = s.ttlRecordCount
  ttl : s'.records.countWhere StateRecord.isTtl = s.records.countWhere StateRecord.isTtl
  unknown : ∀ id, s.records.get? id = none → s'.records.get? id = none
  records : ∀ id r, s.records.get? id = some r → ∃ r', s'.records.get? id = some r' ∧
    r'.envelope = r.envelope ∧ (RecordInv r → RecordInv r') ∧
    (r.directlyInvalid = true → r'.directlyInvalid = true)

theorem Updated.refl (s : MemoryStateStore) : Updated s s where
  graph := rfl
  sourceIndex := rfl
  keys := rfl
  count := rfl
  ttl := rfl
  unknown := fun _ h => h
  records := fun _ r h => ⟨r, h, rfl, id, id⟩

theorem Updated.trans (h : Updated s s') (h' : Updated s' s'') : Updated s s'' where
  graph := h'.graph.trans h.graph
  sourceIndex := h'.sourceIndex.trans h.sourceIndex
  keys := h'.keys.trans h.keys
  count := h'.count.trans h.count
  ttl := h'.ttl.trans h.ttl
  unknown := fun id hnone => h'.unknown id (h.unknown id hnone)
  records := by
    intro id r hget
    obtain ⟨r', hget', henvelope, hinv, hdirect⟩ := h.records id r hget
    obtain ⟨r'', hget'', henvelope', hinv', hdirect'⟩ := h'.records id r' hget'
    exact ⟨r'', hget'', henvelope'.trans henvelope, fun hr => hinv' (hinv hr), fun hr => hdirect' (hdirect hr)⟩

theorem Updated.record_of (h : Updated s s') {r' : StateRecord} (hget : s'.records.get? id = some r') :
    ∃ r, s.records.get? id = some r ∧
      r'.envelope = r.envelope ∧ (RecordInv r → RecordInv r') := by
  cases hold : s.records.get? id with
  | none => rw [h.unknown id hold] at hget; cases hget
  | some r =>
    obtain ⟨r'', hget'', henvelope, hinv, -⟩ := h.records id r hold
    obtain rfl := Option.some.inj (hget''.symm.trans hget)
    exact ⟨r, rfl, henvelope, hinv⟩

theorem Updated.mem_keys (h : Updated s s') (id : String) : id ∈ s'.records.keys ↔ id ∈ s.records.keys := by
  rw [h.keys]

theorem Framed.updated (h : Framed s) (hupdated : Updated s s') : Framed s' where
  graph := by rw [hupdated.graph]; exact h.graph
  nodes := by
    intro id
    rw [hupdated.graph, hupdated.mem_keys]
    exact h.nodes id
  declared := by
    intro id r' hget d
    obtain ⟨r, hold, henvelope, -⟩ := hupdated.record_of hget
    rw [hupdated.graph, henvelope]
    exact h.declared id r hold d
  count := by rw [hupdated.count, hupdated.ttl]; exact h.count
  records := by
    intro id r' hget
    obtain ⟨r, hold, -, hinv⟩ := hupdated.record_of hget
    exact hinv (h.records id r hold)

theorem updated_setRecord {r' : StateRecord} (hget : s.records.get? id = some r)
    (henvelope : r'.envelope = r.envelope) (hinv : RecordInv r → RecordInv r')
    (hdirect : r.directlyInvalid = true → r'.directlyInvalid = true) :
    Updated s (s.setRecord id r') where
  graph := rfl
  sourceIndex := rfl
  keys := OrderedMap.keys_set_of_mem _ (s.records.mem_keys_of_get? hget)
  count := rfl
  ttl := by
    have hset := s.records.countWhere_set StateRecord.isTtl id r'
    have httl : r'.isTtl = r.isTtl := by
      unfold StateRecord.isTtl
      rw [henvelope]
    rw [hget, Option.any_some, httl] at hset
    exact Nat.add_right_cancel hset
  unknown := by
    intro id' hnone
    have hne : id' ≠ id := by
      rintro rfl
      rw [hget] at hnone
      cases hnone
    exact (OrderedMap.get?_set_of_ne _ _ hne).trans hnone
  records := by
    intro id' r'' hget'
    by_cases hid : id' = id
    · subst hid
      obtain rfl := Option.some.inj (hget.symm.trans hget')
      exact ⟨r', OrderedMap.get?_set_self _ _ _, henvelope, hinv, hdirect⟩
    · exact ⟨r'', (OrderedMap.get?_set_of_ne _ _ hid).trans hget', rfl, fun h => h, fun h => h⟩

def evaluated (clock : Option Int) (r : StateRecord) : StateRecord :=
  if r.isTtl then { r with ttlExpired := r.expired clock } else r

theorem evaluated_envelope (clock : Option Int) (r : StateRecord) : (evaluated clock r).envelope = r.envelope := by
  unfold evaluated
  split_ifs
  · rfl
  · rfl

theorem evaluated_directlyInvalid (clock : Option Int) (r : StateRecord) :
    (evaluated clock r).directlyInvalid = r.directlyInvalid := by
  unfold evaluated
  split_ifs
  · rfl
  · rfl

theorem recordInv_evaluated (status : MemoryStatus) (h : RecordInv r) :
    RecordInv { evaluated clock r with status := status } := by
  unfold evaluated
  split_ifs with httl
  · exact ⟨h.invalid, h.declared, h.expiry, fun _ => httl⟩
  · exact ⟨h.invalid, h.declared, h.expiry, h.ttl⟩

/-- The greatest of the status of a record alone and of the cached ones of the dependencies. -/
def aggregated (s : MemoryStateStore) (id : String) (r : StateRecord) : MemoryStatus :=
  maxOf r.own ((s.graph.dependencies.neighbours id).map s.dependencyStatus)

theorem maxOf_invalid (l : List MemoryStatus) : maxOf .invalid l = .invalid := by
  have htop : ∀ status : MemoryStatus, status ≤ .invalid := by
    intro status
    cases status <;> decide
  exact le_antisymm (htop _) (le_maxOf _ _)

theorem foldl_combine (s : MemoryStateStore) (l : List String) (status : MemoryStatus) :
    l.foldl (fun status d => combine status (s.dependencyStatus d)) status
      = maxOf status (l.map s.dependencyStatus) := by
  unfold maxOf
  rw [List.foldl_map]
  simp only [combine_eq_max]

theorem recompute_eq (hnow : nowMs.getD clock = clock) (hget : s.records.get? id = some r) :
    s.recompute clock nowMs id = s.setRecord id
      { evaluated clock r with status := s.aggregated id (evaluated clock r) } := by
  unfold recompute
  rw [hget, hnow]
  dsimp only
  rw [foldl_combine]
  unfold aggregated evaluated
  split_ifs with httl hinvalid hinvalid
  · rfl
  · rw [not_not] at hinvalid
    congr 2
    rw [hinvalid, maxOf_invalid]
  · rfl
  · rw [not_not] at hinvalid
    congr 2
    rw [hinvalid, maxOf_invalid]

theorem recompute_of_none (hget : s.records.get? id = none) : s.recompute clock nowMs id = s := by
  unfold recompute
  rw [hget]

theorem updated_recompute (hnow : nowMs.getD clock = clock) (id : String) : Updated s (s.recompute clock nowMs id) := by
  cases hget : s.records.get? id with
  | none => rw [recompute_of_none hget]; exact Updated.refl s
  | some r =>
    rw [recompute_eq hnow hget]
    refine updated_setRecord hget (evaluated_envelope clock r) (recordInv_evaluated _) ?_
    exact fun hdirect => (evaluated_directlyInvalid clock r).trans hdirect

theorem get?_recompute_of_ne (hnow : nowMs.getD clock = clock) {id' : String} (hne : id' ≠ id) :
    (s.recompute clock nowMs id).records.get? id' = s.records.get? id' := by
  cases hget : s.records.get? id with
  | none => rw [recompute_of_none hget]
  | some r =>
    rw [recompute_eq hnow hget]
    exact OrderedMap.get?_set_of_ne _ _ hne

theorem dependencyStatus_congr {d : String} (h : s'.records.get? d = s.records.get? d) :
    s'.dependencyStatus d = s.dependencyStatus d := by
  unfold dependencyStatus
  rw [h]

theorem aggregated_congr {id : String} (hdep : ∀ d, s'.graph.Dep id d ↔ s.graph.Dep id d)
    (h : ∀ d, s.graph.Dep id d → s'.dependencyStatus d = s.dependencyStatus d) (r : StateRecord) :
    s'.aggregated id r = s.aggregated id r := by
  refine maxOf_congr fun status => ?_
  rw [List.mem_map, List.mem_map]
  constructor
  · rintro ⟨d, hd, rfl⟩
    exact ⟨d, (hdep d).mp hd, (h d ((hdep d).mp hd)).symm⟩
  · rintro ⟨d, hd, rfl⟩
    exact ⟨d, (hdep d).mpr hd, h d hd⟩

/-! ## A set of memories -/

/-- The memories for which `p` holds have consistent statuses with their expiry evaluated, and the others
    are as they were. -/
structure Recomputed (clock : Option Int) (p : String → Prop) (s s' : MemoryStateStore) : Prop where
  updated : Updated s s'
  outside : ∀ id, ¬ p id → s'.records.get? id = s.records.get? id
  inside : ∀ id, p id → ∀ r, s.records.get? id = some r → s'.records.get? id =
    some { evaluated clock r with status := s'.aggregated id (evaluated clock r) }

/-- Memories are recomputed in an order in which none comes before its dependencies. -/
theorem recomputed_foldl (hnow : nowMs.getD clock = clock) {order : List String} (hnodup : order.Nodup)
    (hself : ∀ id, ¬ s.graph.Dep id id)
    (hsorted : order.Pairwise (fun a b => b ∉ s.graph.dependencies.neighbours a)) :
    Recomputed clock (· ∈ order) s (order.foldl (fun s id => s.recompute clock nowMs id) s) := by
  induction order generalizing s with
  | nil => exact ⟨Updated.refl s, fun _ _ => rfl, nofun⟩
  | cons a order ih =>
    obtain ⟨ha, hnodup⟩ := List.nodup_cons.mp hnodup
    obtain ⟨hbefore, hsorted⟩ := List.pairwise_cons.mp hsorted
    have hfirst := updated_recompute (s := s) hnow a
    rw [← hfirst.graph] at hself hsorted
    have hrest := ih hnodup hself hsorted
    rw [hfirst.graph] at hself
    rw [List.foldl_cons]
    refine ⟨hfirst.trans hrest.updated, ?_, ?_⟩
    · intro id hid
      rw [List.mem_cons, not_or] at hid
      rw [hrest.outside id hid.2, get?_recompute_of_ne hnow hid.1]
    · intro id hid r hget
      rcases List.mem_cons.mp hid with rfl | hmem
      · rw [hrest.outside id ha, recompute_eq hnow hget]
        refine (OrderedMap.get?_set_self _ _ _).trans ?_
        -- What is recomputed later is not a dependency.
        have hagree := @aggregated_congr s _ id
          (fun d => by rw [(hfirst.trans hrest.updated).graph])
          (fun d hd => by
            have hlater : d ∉ order := fun hmem => hbefore d hmem hd
            have hne : d ≠ id := by
              rintro rfl
              exact hself d hd
            refine dependencyStatus_congr ?_
            rw [hrest.outside d hlater, get?_recompute_of_ne hnow hne])
          (evaluated clock r)
        rw [recompute_eq hnow hget] at hagree
        rw [hagree]
      · refine hrest.inside id hmem r ?_
        rw [get?_recompute_of_ne hnow (by rintro rfl; exact ha hmem), hget]

theorem recomputeSet_spec (hgraph : s.graph.GraphInv) {nowMs : Option (Option Int)}
    (hnow : nowMs.getD clock = clock) (memoryIds : OrderedSet String) :
    ∃ s', s.recomputeSet clock memoryIds nowMs = (s', .ok ()) ∧
      Recomputed clock (· ∈ memoryIds) s s' := by
  unfold recomputeSet
  split_ifs with hempty
  · have hnone := (OrderedSet.size_eq_zero memoryIds).mp hempty
    exact ⟨s, rfl, Updated.refl s, fun _ _ => rfl, fun id hid => absurd hid (hnone id)⟩
  · obtain ⟨order, hnodup, hmem, hsorted, heq⟩ := updateInOrder_spec
      (fun s id => s.recompute clock nowMs id) memoryIds s hgraph.mirror
      (neighbours_nodup s.graph.dependencies) (neighbours_nodup s.graph.dependents) hgraph.acyclic
    rw [heq]
    rw [if_neg (fun h => h rfl)]
    have hself : ∀ id, ¬ s.graph.Dep id id := fun id hid =>
      not_transGen_self hgraph.acyclic id (TransGen.single hid)
    have hrecomputed := recomputed_foldl hnow hnodup hself hsorted
    refine ⟨_, rfl, hrecomputed.updated, ?_, ?_⟩
    · intro id hid
      exact hrecomputed.outside id fun h => hid ((hmem id).mp h)
    · intro id hid
      exact hrecomputed.inside id ((hmem id).mpr hid)

/-- The cached status of a memory is the greatest of its own and those of its dependencies. -/
def Consistent (s : MemoryStateStore) (id : String) : Prop :=
  ∀ r, s.records.get? id = some r → r.status = s.aggregated id r

structure Sound (s : MemoryStateStore) : Prop where
  framed : Framed s
  consistent : ∀ id, s.Consistent id

theorem own_status (r : StateRecord) (status : MemoryStatus) : StateRecord.own { r with status := status } = r.own := rfl

theorem sound_recomputed (hframed : Framed s) {p : String → Prop}
    (hclosed : ∀ id d, s.graph.Dep id d → p d → p id) (hconsistent : ∀ id, ¬ p id → s.Consistent id)
    (h : Recomputed clock p s s') : Sound s' where
  framed := hframed.updated h.updated
  consistent := by
    intro id r hget
    by_cases hid : p id
    · obtain ⟨r0, hold, -⟩ := h.updated.record_of hget
      rw [h.inside id hid r0 hold] at hget
      cases hget
      rfl
    · rw [h.outside id hid] at hget
      rw [hconsistent id hid r hget]
      refine (aggregated_congr (fun d => by rw [h.updated.graph]) (fun d hd => ?_) r).symm
      exact dependencyStatus_congr (h.outside d (fun hp => hid (hclosed id d hd hp)))

theorem leads_dependents (hgraph : s.graph.GraphInv) (a b : String) :
    Leads s.graph.dependents.neighbours a b ↔ s.graph.Reaches b a := by
  unfold Leads DependencyGraph.Reaches
  rw [← reflTransGen_swap]
  constructor
  · exact ReflTransGen.mono (fun x y hxy => (hgraph.mirror x y).mpr hxy) b a
  · exact ReflTransGen.mono (fun x y hxy => (hgraph.mirror x y).mp hxy) b a

theorem length_keys_lt_rounds (s : MemoryStateStore) (memoryIds : List String) :
    memoryIds.length + s.graph.dependencies.keys.length < s.rounds memoryIds := by
  unfold rounds
  rw [OrderedMap.length_keys]
  exact Nat.lt_succ_self _

theorem mem_collectDependents (hgraph : s.graph.GraphInv) (memoryIds : List String) (id : String) :
    id ∈ s.collectDependents memoryIds ↔ ∃ c ∈ memoryIds, s.graph.Reaches id c := by
  unfold collectDependents
  rw [@mem_closure _ _ _ s.graph.dependencies.keys _ _ _ (length_keys_lt_rounds s memoryIds)]
  · exact exists_congr fun c => and_congr_right (fun _ => leads_dependents hgraph c id)
  · intro d n hn
    exact mem_keys_of_neighbour _ ((hgraph.mirror n d).mpr hn)

theorem mem_collectDependencies (hgraph : s.graph.GraphInv) (memoryIds : List String) (id : String) :
    id ∈ s.collectDependencies memoryIds ↔ ∃ c ∈ memoryIds, s.graph.Reaches c id := by
  unfold collectDependencies
  rw [@mem_closure _ _ _ s.graph.dependencies.keys _ _ _ (length_keys_lt_rounds s memoryIds)]
  · exact Iff.rfl
  · intro n d hd
    exact hgraph.known n d hd

theorem collectDependents_closed (hgraph : s.graph.GraphInv) (memoryIds : List String)
    (id d : String) (hdep : s.graph.Dep id d) (hd : d ∈ s.collectDependents memoryIds) :
    id ∈ s.collectDependents memoryIds := by
  rw [mem_collectDependents hgraph] at hd ⊢
  obtain ⟨c, hc, hreach⟩ := hd
  exact ⟨c, hc, ReflTransGen.head hdep hreach⟩

theorem nowFor_getD (s : MemoryStateStore) (clock : Option Int) (memoryIds : List String) :
    (s.nowFor clock memoryIds).getD clock = clock := by
  unfold nowFor
  split_ifs
  · rfl
  · rfl
  · rfl

theorem nowFor_eq_none (hframed : Framed s) {memoryIds : List String} (h : s.nowFor clock memoryIds = none)
    (hid : id ∈ memoryIds) (hget : s.records.get? id = some r) : r.isTtl = false := by
  by_contra httl
  rw [Bool.not_eq_false] at httl
  unfold nowFor at h
  split_ifs at h with hcount hany
  · have hpos := s.records.countWhere_pos StateRecord.isTtl hget httl
    rw [hframed.count] at hcount
    omega
  · refine hany (List.any_eq_true.mpr ⟨id, hid, ?_⟩)
    rw [hget, Option.any_some]
    exact httl

theorem evaluated_of_not_ttl (h : r.isTtl = false) : evaluated clock r = r := by
  unfold evaluated
  rw [h]
  rfl

end MemoryStateStore

end Premise.Reference
