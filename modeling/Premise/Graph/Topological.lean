import Premise.Collections.OrderedMap
import Premise.Control.Loop

/-!
# Updates in dependency order

The nodes of a set are updated one after the other, every node when all its dependencies in the set have
been. How many of them a node still waits for is counted down along the dependents of the nodes that are
updated.
-/

namespace Premise.Graph

open Collections Control

universe u v

variable {κ : Type u} {σ : Type v} [DecidableEq κ]

/-- The counts of dependencies that are waited for, the nodes that wait for none, how many have been
updated, and what is updated. -/
structure Kahn (κ : Type u) (σ : Type v) where
  pending : OrderedMap κ Nat
  queue : List κ
  processed : Nat
  state : σ

def Kahn.release (k : Kahn κ σ) (dependentId : κ) : Kahn κ σ :=
  match k.pending.get? dependentId with
  | none => k
  | some dependencyCount =>
    { k with
        pending := k.pending.set dependentId (dependencyCount - 1)
        queue := if dependencyCount - 1 = 0 then k.queue ++ [dependentId] else k.queue }

def kahnBody (dependents : κ → List κ) (update : σ → κ → σ) (k : Kahn κ σ) :
    Step (Kahn κ σ) (Nat × σ) :=
  match k.queue with
  | [] => .done (k.processed, k.state)
  | id :: queue => .again ((dependents id).foldl Kahn.release
      { k with
          queue := queue
          processed := k.processed + 1
          state := update k.state id })

def Kahn.enter (dependencies : κ → List κ) (ids : OrderedSet κ) (k : Kahn κ σ) (id : κ) : Kahn κ σ :=
  let dependencyCount := (dependencies id).countP (fun d => decide (d ∈ ids))
  { k with
      pending := k.pending.set id dependencyCount
      queue := if dependencyCount = 0 then k.queue ++ [id] else k.queue }

/-- The number of nodes that have been updated, and the result. -/
def updateInOrder (dependencies dependents : κ → List κ) (update : σ → κ → σ) (ids : OrderedSet κ)
    (s : σ) : Nat × σ :=
  (run (kahnBody dependents update) (ids.size + 1)
    (ids.elems.foldl (Kahn.enter dependencies ids) ⟨∅, [], 0, s⟩)).getD (0, s)

/-! ## Counting down -/

variable {dependencies dependents : κ → List κ} {update : σ → κ → σ} {ids : OrderedSet κ}
  {order : List κ} {id : κ}

/-- The dependencies of `a` in the set that are not in `order`. -/
def waiting (dependencies : κ → List κ) (ids : OrderedSet κ) (order : List κ) (a : κ) : Nat :=
  (dependencies a).countP (fun d => decide (d ∈ ids ∧ d ∉ order))

theorem waiting_eq_zero {a : κ} : waiting dependencies ids order a = 0 ↔ ∀ d ∈ dependencies a, d ∈ ids → d ∈ order := by
  unfold waiting
  rw [List.countP_eq_zero]
  refine forall₂_congr fun d _ => ?_
  rw [decide_eq_true_eq]
  tauto

theorem waiting_concat_of_not_mem {a : κ} (h : id ∉ dependencies a) :
    waiting dependencies ids (order ++ [id]) a = waiting dependencies ids order a := by
  refine List.countP_congr fun d hd => ?_
  have hne : d ≠ id := by
    rintro rfl
    exact h hd
  simp [hne]

theorem waiting_concat_of_mem {a : κ} (hnodup : (dependencies a).Nodup) (h : id ∈ dependencies a)
    (hid : id ∈ ids) (hnew : id ∉ order) :
    waiting dependencies ids (order ++ [id]) a + 1 = waiting dependencies ids order a := by
  unfold waiting
  generalize dependencies a = l at hnodup h
  induction l with
  | nil => cases h
  | cons d l ih =>
    obtain ⟨hd, hnodup⟩ := List.nodup_cons.mp hnodup
    rw [List.countP_cons, List.countP_cons]
    by_cases hdid : d = id
    · have hrest : l.countP (fun d => decide (d ∈ ids ∧ d ∉ order ++ [id]))
          = l.countP (fun d => decide (d ∈ ids ∧ d ∉ order)) := by
        refine List.countP_congr fun e he => ?_
        have hne : e ≠ id := by
          rintro rfl
          exact hd (hdid ▸ he)
        simp [hne]
      rw [hrest, hdid, if_neg (by simp), if_pos (by simp [hid, hnew])]
    · have hmem := (List.mem_cons.mp h).resolve_left (Ne.symm hdid)
      have hrest := ih hnodup hmem
      have hiff : (d ∈ ids ∧ d ∉ order ++ [id]) ↔ (d ∈ ids ∧ d ∉ order) := by
        simp [hdid]
      rw [decide_eq_decide.mpr hiff]
      omega

theorem foldl_release (l : List κ) (hl : l.Nodup) (k : Kahn κ σ) : (∀ a, (l.foldl Kahn.release k).pending.get? a =
      if a ∈ l then (k.pending.get? a).map (· - 1) else k.pending.get? a) ∧
    (l.foldl Kahn.release k).queue = k.queue ++ l.filter (fun a => (k.pending.get? a).any (fun n => decide (n - 1 = 0))) ∧
    (l.foldl Kahn.release k).processed = k.processed ∧
    (l.foldl Kahn.release k).state = k.state := by
  induction l generalizing k with
  | nil => simp
  | cons b l ih =>
    obtain ⟨hb, hl⟩ := List.nodup_cons.mp hl
    obtain ⟨hpending, hqueue, hprocessed, hstate⟩ := ih hl (k.release b)
    have hother : ∀ a, a ≠ b → (k.release b).pending.get? a = k.pending.get? a := by
      intro a ha
      unfold Kahn.release
      cases k.pending.get? b with
      | none => rfl
      | some n => exact OrderedMap.get?_set_of_ne _ _ ha
    have hself : (k.release b).pending.get? b = (k.pending.get? b).map (· - 1) := by
      unfold Kahn.release
      cases hget : k.pending.get? b with
      | none => exact hget
      | some n => exact OrderedMap.get?_set_self _ _ _
    refine ⟨?_, ?_, ?_, ?_⟩
    · intro a
      rw [List.foldl_cons, hpending]
      by_cases hab : a = b
      · rw [hab, if_neg hb, if_pos List.mem_cons_self, hself]
      · rw [hother a hab]
        simp only [List.mem_cons, hab, false_or]
    · rw [List.foldl_cons, hqueue]
      have hfilter : l.filter (fun a => ((k.release b).pending.get? a).any (fun n => decide (n - 1 = 0)))
          = l.filter (fun a => (k.pending.get? a).any (fun n => decide (n - 1 = 0))) := by
        refine List.filter_congr fun a ha => ?_
        rw [hother a (by rintro rfl; exact hb ha)]
      rw [hfilter, List.filter_cons]
      unfold Kahn.release
      cases hget : k.pending.get? b with
      | none => simp
      | some n =>
        by_cases hn : n - 1 = 0
        · simp [hn]
        · simp [hn]
    · rw [List.foldl_cons, hprocessed]
      unfold Kahn.release
      cases k.pending.get? b with
      | none | some => rfl
    · rw [List.foldl_cons, hstate]
      unfold Kahn.release
      cases k.pending.get? b with
      | none | some => rfl

theorem foldl_enter (l : List κ) (k : Kahn κ σ) : (∀ a, (l.foldl (Kahn.enter dependencies ids) k).pending.get? a =
      if a ∈ l then some (waiting dependencies ids [] a) else k.pending.get? a) ∧
    (l.foldl (Kahn.enter dependencies ids) k).queue =
      k.queue ++ l.filter (fun a => decide (waiting dependencies ids [] a = 0)) ∧
    (l.foldl (Kahn.enter dependencies ids) k).processed = k.processed ∧
    (l.foldl (Kahn.enter dependencies ids) k).state = k.state := by
  have hcount : ∀ a, (dependencies a).countP (fun d => decide (d ∈ ids))
      = waiting dependencies ids [] a := by
    intro a
    unfold waiting
    simp only [List.not_mem_nil, not_false_eq_true, and_true]
  induction l generalizing k with
  | nil => simp
  | cons b l ih =>
    obtain ⟨hpending, hqueue, hprocessed, hstate⟩ := ih (Kahn.enter dependencies ids k b)
    refine ⟨?_, ?_, hprocessed, hstate⟩
    · intro a
      rw [List.foldl_cons, hpending]
      unfold Kahn.enter
      rw [hcount]
      by_cases hal : a ∈ l
      · rw [if_pos hal, if_pos (List.mem_cons_of_mem _ hal)]
      · rw [if_neg hal]
        by_cases hab : a = b
        · rw [hab, if_pos List.mem_cons_self, OrderedMap.get?_set_self]
        · rw [OrderedMap.get?_set_of_ne _ _ hab, if_neg]
          rw [List.mem_cons]
          tauto
    · rw [List.foldl_cons, hqueue, List.filter_cons]
      unfold Kahn.enter
      rw [hcount]
      by_cases hzero : waiting dependencies ids [] b = 0
      · simp [hzero]
      · simp [hzero]

/-! ## The order of the updates -/

/-- `order` has been updated: a node is updated, or queued, exactly if it waits for nothing. -/
structure Processing (dependencies : κ → List κ) (update : σ → κ → σ) (ids : OrderedSet κ) (s : σ)
    (order : List κ) (k : Kahn κ σ) : Prop where
  nodup : (order ++ k.queue).Nodup
  members : ∀ a ∈ order ++ k.queue, a ∈ ids
  pending : ∀ a, k.pending.get? a =
    if a ∈ ids then some (waiting dependencies ids order a) else none
  ready : ∀ a ∈ ids, waiting dependencies ids order a = 0 ↔ a ∈ order ++ k.queue
  sorted : order.Pairwise (fun a b => b ∉ dependencies a)
  processed : k.processed = order.length
  state : k.state = order.foldl update s

theorem processing_start (dependencies : κ → List κ) (update : σ → κ → σ) (ids : OrderedSet κ)
    (s : σ) : Processing dependencies update ids s []
      (ids.elems.foldl (Kahn.enter dependencies ids) ⟨∅, [], 0, s⟩) := by
  obtain ⟨hpending, hqueue, hprocessed, hstate⟩ :=
    @foldl_enter _ _ _ dependencies ids ids.elems ⟨∅, [], 0, s⟩
  have hmem : ∀ a, a ∈ ([] : List κ) ++ (ids.elems.foldl (Kahn.enter dependencies ids) ⟨∅, [], 0, s⟩).queue ↔
      a ∈ ids ∧ waiting dependencies ids [] a = 0 := by
    intro a
    rw [hqueue, List.nil_append, List.nil_append, List.mem_filter, decide_eq_true_eq]
    exact Iff.rfl
  refine ⟨?_, fun a ha => ((hmem a).mp ha).1, hpending, ?_, List.Pairwise.nil, hprocessed, hstate⟩
  · rw [hqueue, List.nil_append, List.nil_append]
    exact ids.nodup.filter _
  · intro a ha
    rw [hmem]
    exact ⟨fun hzero => ⟨ha, hzero⟩, fun h => h.2⟩

theorem Processing.next {s : σ} {k : Kahn κ σ} {queue : List κ}
    (hmirror : ∀ n d, d ∈ dependencies n ↔ n ∈ dependents d)
    (hdependencies : ∀ n, (dependencies n).Nodup) (hdependents : ∀ d, (dependents d).Nodup)
    (h : Processing dependencies update ids s order k) (hqueue : k.queue = id :: queue) :
    Processing dependencies update ids s (order ++ [id]) ((dependents id).foldl Kahn.release
        { k with
            queue := queue
            processed := k.processed + 1
            state := update k.state id }) := by
  obtain ⟨hpending', hqueue', hprocessed', hstate'⟩ := foldl_release (dependents id) (hdependents id)
    { k with
        queue := queue
        processed := k.processed + 1
        state := update k.state id }
  have hnodup := h.nodup
  have hid : id ∈ ids := h.members id (by rw [hqueue]; simp)
  have hnew : id ∉ order := by
    intro hmem
    rw [hqueue, List.nodup_append] at hnodup
    exact hnodup.2.2 id hmem id List.mem_cons_self rfl
  have hwaiting : ∀ a, waiting dependencies ids order a = if a ∈ dependents id
      then waiting dependencies ids (order ++ [id]) a + 1
      else waiting dependencies ids (order ++ [id]) a := by
    intro a
    split_ifs with ha
    · exact (waiting_concat_of_mem (hdependencies a) ((hmirror a id).mpr ha) hid hnew).symm
    · exact (waiting_concat_of_not_mem (fun hmem => ha ((hmirror a id).mp hmem))).symm
  -- The dependents that wait for nothing else join the queue.
  have hfreed : ∀ a, a ∈ (dependents id).filter (fun a => (k.pending.get? a).any (fun n => decide (n - 1 = 0))) ↔
      a ∈ dependents id ∧ a ∈ ids ∧ waiting dependencies ids (order ++ [id]) a = 0 := by
    intro a
    rw [List.mem_filter, h.pending]
    refine and_congr_right fun ha => ?_
    by_cases hids : a ∈ ids
    · rw [if_pos hids, Option.any_some, decide_eq_true_eq, hwaiting, if_pos ha]
      simp [hids]
    · rw [if_neg hids, Option.any_none]
      simp [hids]
  have hold : ∀ a, a ∈ order ++ k.queue ↔ a ∈ order ++ [id] ++ queue := by
    intro a
    rw [hqueue, List.append_assoc, List.singleton_append]
  refine ⟨?_, ?_, ?_, ?_, ?_, ?_, ?_⟩
  · rw [hqueue', ← List.append_assoc, List.nodup_append]
    refine ⟨?_, (hdependents id).filter _, ?_⟩
    · rw [List.append_assoc, List.singleton_append, ← hqueue]
      exact hnodup
    · rintro a ha b hb rfl
      obtain ⟨hdep, hids, -⟩ := (hfreed a).mp hb
      have hzero := (h.ready a hids).mpr ((hold a).mpr ha)
      rw [hwaiting, if_pos hdep] at hzero
      omega
  · intro a ha
    rw [hqueue', ← List.append_assoc] at ha
    rcases List.mem_append.mp ha with ha | ha
    · exact h.members a ((hold a).mpr ha)
    · exact ((hfreed a).mp ha).2.1
  · intro a
    rw [hpending']
    rw [h.pending]
    by_cases hids : a ∈ ids
    · rw [if_pos hids, if_pos hids]
      by_cases hdep : a ∈ dependents id
      · rw [if_pos hdep, hwaiting, if_pos hdep]
        rfl
      · rw [if_neg hdep, hwaiting, if_neg hdep]
    · rw [if_neg hids, if_neg hids]
      simp
  · intro a hids
    rw [hqueue', ← List.append_assoc, List.mem_append, hfreed, ← hold, ← h.ready a hids, hwaiting]
    by_cases hdep : a ∈ dependents id
    · rw [if_pos hdep]
      constructor
      · exact fun hzero => Or.inr ⟨hdep, hids, hzero⟩
      · rintro (hzero | ⟨-, -, hzero⟩)
        · omega
        · exact hzero
    · rw [if_neg hdep]
      constructor
      · exact .inl
      · rintro (hzero | ⟨-, -, hzero⟩)
        · exact hzero
        · exact hzero
  · rw [List.pairwise_append]
    refine ⟨h.sorted, List.pairwise_singleton _ _, ?_⟩
    intro a ha b hb hdep
    rw [List.mem_singleton] at hb
    subst hb
    have hids := h.members a (List.mem_append_left _ ha)
    have hzero := (h.ready a hids).mpr (List.mem_append_left _ ha)
    exact hnew (waiting_eq_zero.mp hzero b hdep hid)
  · rw [hprocessed', List.length_append, List.length_singleton, ← h.processed]
  · rw [hstate', List.foldl_append, ← h.state]
    rfl

theorem updateInOrder_spec (update : σ → κ → σ) (ids : OrderedSet κ) (s : σ)
    (hmirror : ∀ n d, d ∈ dependencies n ↔ n ∈ dependents d)
    (hdependencies : ∀ n, (dependencies n).Nodup) (hdependents : ∀ d, (dependents d).Nodup)
    (hacyclic : WellFounded (fun d n => d ∈ dependencies n)) :
    ∃ order : List κ, order.Nodup ∧ (∀ a, a ∈ order ↔ a ∈ ids) ∧ order.Pairwise (fun a b => b ∉ dependencies a) ∧
      updateInOrder dependencies dependents update ids s = (ids.size, order.foldl update s) := by
  have hbound : ∀ (l : List κ), l.Nodup → (∀ a ∈ l, a ∈ ids) → l.length ≤ ids.size :=
    fun l hl hsub => (hl.subperm hsub).length_le
  obtain ⟨r, hrun, order, hnodup, hmem, hsorted, hr⟩ := run_spec (kahnBody dependents update)
    (fun k => ids.size - k.processed)
    (fun k => ∃ order, Processing dependencies update ids s order k)
    (fun r => ∃ order : List κ, order.Nodup ∧ (∀ a, a ∈ order ↔ a ∈ ids) ∧
      order.Pairwise (fun a b => b ∉ dependencies a) ∧ r = (ids.size, order.foldl update s))
    (by
      rintro k k' ⟨order, hk⟩ hbody
      unfold kahnBody at hbody
      cases hqueue : k.queue with
      | nil => rw [hqueue] at hbody; cases hbody
      | cons id queue =>
        rw [hqueue] at hbody
        obtain rfl := Step.again.inj hbody
        have hnext := hk.next hmirror hdependencies hdependents hqueue
        refine ⟨⟨_, hnext⟩, ?_⟩
        have hlength := hbound _ (List.nodup_append.mp hnext.nodup).1
          (fun a ha => hnext.members a (List.mem_append_left _ ha))
        rw [hnext.processed, hk.processed]
        rw [List.length_append, List.length_singleton] at hlength ⊢
        omega)
    (by
      rintro k r ⟨order, hk⟩ hbody
      unfold kahnBody at hbody
      cases hqueue : k.queue with
      | cons id queue => rw [hqueue] at hbody; cases hbody
      | nil =>
        rw [hqueue] at hbody
        obtain rfl := Step.done.inj hbody
        have hnodup := hk.nodup
        have hmembers := hk.members
        have hready := hk.ready
        rw [hqueue, List.append_nil] at hnodup hmembers hready
        have hall : ∀ a, a ∈ ids → a ∈ order := by
          intro a
          induction a using hacyclic.induction with
          | _ a ih =>
            intro ha
            exact (hready a ha).mp (waiting_eq_zero.mpr (fun d hd hids => ih d hd hids))
        have hsize : ids.size ≤ order.length :=
          (ids.nodup.subperm (fun a ha => hall a ha)).length_le
        have hlength := hbound order hnodup hmembers
        refine ⟨order, hnodup, fun a => ⟨hmembers a, hall a⟩, hk.sorted, ?_⟩
        rw [hk.processed, hk.state, le_antisymm hlength hsize])
    (ids.size + 1) _ ⟨[], processing_start dependencies update ids s⟩ (by omega)
  refine ⟨order, hnodup, hmem, hsorted, ?_⟩
  unfold updateInOrder
  rw [hrun, hr]
  rfl

end Premise.Graph
