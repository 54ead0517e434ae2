import Premise.FrontierEngine.Spec

/-!
# Proofs: budgeted reads

The read-only searches of the engine (`reaches`, `addFrontierRoot`, `computeFrontier`) change nothing
but the work used, unless the budget runs out; and when it does not, they answer correctly.
-/

namespace Premise.FrontierEngine

open Collections Control Premise.Graph Relation

namespace IncrementalFrontierEngine

variable {e e' e'' : IncrementalFrontierEngine}

theorem Charged.refl (e : IncrementalFrontierEngine) : Charged e e :=
  ⟨rfl, rfl, fun h => ⟨h, e.frontierWorkUsed, rfl⟩⟩

theorem charged_work (e : IncrementalFrontierEngine) (w : Nat) : Charged e { e with frontierWorkUsed := w } :=
  ⟨rfl, rfl, fun h => ⟨h, w, rfl⟩⟩

theorem Charged.trans (h : Charged e e') (h' : Charged e' e'') : Charged e e'' where
  dependencies := h'.dependencies.trans h.dependencies
  dependents := h'.dependents.trans h.dependents
  within := by
    intro hok
    obtain ⟨hok', w', rfl⟩ := h'.within hok
    obtain ⟨hok, w, rfl⟩ := h.within hok'
    exact ⟨hok, w', rfl⟩

theorem count_eq (e : IncrementalFrontierEngine) : e.count =
    if e.frontierBudgetExceeded then e
    else if e.frontierWorkUsed + 1 > e.maxWork then
      failClosed { e with frontierWorkUsed := e.frontierWorkUsed + 1 }
    else { e with frontierWorkUsed := e.frontierWorkUsed + 1 } := rfl

theorem count_charged (e : IncrementalFrontierEngine) : Charged e e.count where
  dependencies := by
    rw [count_eq]
    split_ifs <;> rfl
  dependents := by
    rw [count_eq]
    split_ifs <;> rfl
  within := by
    intro hok
    rw [count_eq] at hok ⊢
    by_cases hex : e.frontierBudgetExceeded = true
    · rw [if_pos hex, hex] at hok
      cases hok
    · rw [if_neg hex] at hok ⊢
      split_ifs at hok ⊢
      · cases hok
      · exact ⟨by simpa using hex, _, rfl⟩

theorem count_of_exceeded (h : e.frontierBudgetExceeded = true) : e.count = e := by
  rw [count_eq, if_pos h]

theorem foldl_count_charged {α : Type} (l : List α) (e : IncrementalFrontierEngine) :
    Charged e (l.foldl (fun e _ => e.count) e) := by
  induction l generalizing e with
  | nil => exact Charged.refl e
  | cons a l ih => exact (count_charged e).trans (ih e.count)

theorem updateDirtyState_charged (e : IncrementalFrontierEngine) (nodeId : String) :
    Charged e (e.updateDirtyState nodeId) := by
  unfold updateDirtyState
  cases e.activeDirtyRoots.get? nodeId with
  | none => exact Charged.refl e
  | some roots => exact foldl_count_charged roots.keys e

theorem GraphInv.edge_known (hg : e.GraphInv) {n m : String} (h : e.Edge n m) : m ∈ e.dependencies.keys :=
  e.dependencies.mem_keys_of_neighbour ((hg.mirror m n).mpr h)

theorem GraphInv.dependsOn_iff_below (hg : e.GraphInv) (n m : String) : TransGen e.DependsOn m n ↔ e.Below n m := by
  have hswap : (fun a b => e.DependsOn b a) = e.Edge := by
    funext a b
    exact propext (hg.mirror b a)
  rw [← transGen_swap]
  show TransGen (fun a b => e.DependsOn b a) n m ↔ _
  rw [hswap]
  rfl

theorem GraphInv.dependsOn_iff_reach (hg : e.GraphInv) (n m : String) : ReflTransGen e.DependsOn m n ↔ e.Reach n m := by
  rw [reflTransGen_iff_eq_or_transGen, Reach, reflTransGen_iff_eq_or_transGen, hg.dependsOn_iff_below, Below, eq_comm]

theorem GraphInv.not_below_self (hg : e.GraphInv) (n : String) : ¬ e.Below n n := by
  rw [← hg.dependsOn_iff_below]
  exact not_transGen_self hg.acyclic n

theorem GraphInv.not_edge_self (hg : e.GraphInv) (n : String) : ¬ e.Edge n n :=
  fun h => hg.not_below_self n (TransGen.single h)

theorem GraphInv.reach_known (hg : e.GraphInv) {r n : String} (hr : r ∈ e.dependencies.keys)
    (h : e.Reach r n) : n ∈ e.dependencies.keys := by
  rcases ReflTransGen.cases_tail h with rfl | ⟨m, -, hm⟩
  · exact hr
  · exact hg.edge_known hm

instance : IsTrans String e.Below := ⟨fun _ _ _ h h' => TransGen.trans h h'⟩

/-! ## `reaches` -/

/-- The invariant of the search for `target`; `rest` are the dependents still to look at. -/
structure ReachInv (e : IncrementalFrontierEngine) (start target : String) (rest : List String)
    (s : ReachState) : Prop where
  charged : Charged e s.engine
  seen_below : ∀ x ∈ s.seen, e.Below start x
  queue_seen : ∀ x ∈ s.queue, x = start ∨ x ∈ s.seen
  target_unseen : target ∉ s.seen
  explored : ∀ x, x = start ∨ x ∈ s.seen → x ∉ s.queue → ∀ y, e.Edge x y → y ∈ s.seen ∨ y ∈ rest

/-- The rounds that `reaches` still needs. -/
def reachMeasure (e : IncrementalFrontierEngine) (s : ReachState) : Nat :=
  s.queue.length + e.dependencies.weightOutside (fun n => decide (n ∈ s.seen)) (fun _ => 1)

def ReachPost (e : IncrementalFrontierEngine) (start target : String)
    (r : IncrementalFrontierEngine × Bool) : Prop :=
  Charged e r.1 ∧ (r.1.frontierBudgetExceeded = false → (r.2 = true ↔ e.Below start target))

theorem reachesEdges_spec (hg : e.GraphInv) {start target id : String} (rest : List String)
    (s : ReachState) (hid : id = start ∨ id ∈ s.seen) (hrest : ∀ y ∈ rest, e.Edge id y)
    (hs : e.ReachInv start target rest s) :
    (∃ s', reachesEdges target rest s = .again s' ∧ e.ReachInv start target [] s' ∧ e.reachMeasure s' ≤ e.reachMeasure s) ∨
    (∃ r, reachesEdges target rest s = .done r ∧ e.ReachPost start target r) := by
  induction rest generalizing s with
  | nil => exact .inl ⟨s, rfl, hs, le_rfl⟩
  | cons d rest ih =>
    have hch : Charged e s.engine.count := hs.charged.trans (count_charged _)
    have hbelow : e.Below start d := by
      have hd := hrest d (List.mem_cons_self ..)
      rcases hid with rfl | hid
      · exact TransGen.single hd
      · exact TransGen.tail (hs.seen_below id hid) hd
    rw [reachesEdges]
    split_ifs with hex htarget hseen
    · exact .inr ⟨_, rfl, hch, fun h => by simp [hex] at h⟩
    · subst htarget
      exact .inr ⟨_, rfl, hch, fun _ => ⟨fun _ => hbelow, fun _ => rfl⟩⟩
    · refine ih { s with engine := s.engine.count } hid (fun y hy => hrest y (List.mem_cons_of_mem _ hy)) ?_
      refine ⟨hch, hs.seen_below, hs.queue_seen, hs.target_unseen, ?_⟩
      intro x hx hq y hy
      rcases hs.explored x hx hq y hy with h | h
      · exact .inl h
      · rcases List.mem_cons.mp h with rfl | h
        · exact .inl hseen
        · exact .inr h
    · have hinv : e.ReachInv start target rest
          ⟨s.seen.add d, s.queue ++ [d], s.engine.count⟩ := by
        refine ⟨hch, ?_, ?_, ?_, ?_⟩
        · intro x hx
          rcases OrderedSet.mem_add.mp hx with rfl | hx
          · exact hbelow
          · exact hs.seen_below x hx
        · intro x hx
          rcases List.mem_append.mp hx with hx | hx
          · exact (hs.queue_seen x hx).imp_right fun h => OrderedSet.mem_add.mpr (Or.inr h)
          · exact .inr (OrderedSet.mem_add.mpr (Or.inl (List.mem_singleton.mp hx)))
        · intro h
          rcases OrderedSet.mem_add.mp h with h | h
          · exact htarget h.symm
          · exact hs.target_unseen h
        · intro x hx hq y hy
          have hq' : x ∉ s.queue := fun h => hq (List.mem_append_left _ h)
          have hne : x ≠ d := fun h => hq (List.mem_append_right _ (List.mem_singleton.mpr h))
          have hx' : x = start ∨ x ∈ s.seen := by
            rcases hx with hx | hx
            · exact .inl hx
            · exact .inr ((OrderedSet.mem_add.mp hx).resolve_left hne)
          rcases hs.explored x hx' hq' y hy with h | h
          · exact .inl (OrderedSet.mem_add.mpr (Or.inr h))
          · rcases List.mem_cons.mp h with rfl | h
            · exact .inl (OrderedSet.mem_add.mpr (Or.inl rfl))
            · exact .inr h
      have hle : e.reachMeasure ⟨s.seen.add d, s.queue ++ [d], s.engine.count⟩ ≤ e.reachMeasure s := by
        have hw := e.dependencies.weightOutside_insert (p := fun n => decide (n ∈ s.seen))
          (q := fun n => decide (n ∈ s.seen.add d)) (fun _ => 1) (k := d) (by simp [hseen])
          (fun x => by simp [Bool.or_comm])
        obtain ⟨deps, hdeps⟩ := e.dependencies.mem_keys.mp (hg.edge_known (hrest d (List.mem_cons_self ..)))
        rw [hdeps] at hw
        simp only [Option.map_some, Option.getD_some] at hw
        simp only [reachMeasure, List.length_append, List.length_singleton]
        omega
      rcases ih ⟨s.seen.add d, s.queue ++ [d], s.engine.count⟩
          (hid.imp_right (fun h => OrderedSet.mem_add.mpr (Or.inr h)))
          (fun y hy => hrest y (List.mem_cons_of_mem _ hy)) hinv with ⟨s', h1, h2, h3⟩ | h
      · exact .inl ⟨s', h1, h2, le_trans h3 hle⟩
      · exact .inr h

theorem ReachInv.below_seen {start target : String} {s : ReachState}
    (hs : e.ReachInv start target [] s) (hq : s.queue = []) {y : String} (h : e.Below start y) :
    y ∈ s.seen := by
  have hstep : ∀ x, x = start ∨ x ∈ s.seen → ∀ y, e.Edge x y → y ∈ s.seen := by
    intro x hx y hy
    exact (hs.explored x hx (by rw [hq]; exact List.not_mem_nil) y hy).resolve_right
      List.not_mem_nil
  induction h with
  | single h => exact hstep start (Or.inl rfl) _ h
  | tail _ h ih => exact hstep _ (Or.inr ih) _ h

theorem reachesBody_spec (hg : e.GraphInv) {start target : String} (s : ReachState)
    (hs : e.ReachInv start target [] s) :
    (∃ s', reachesBody target s = .again s' ∧ e.ReachInv start target [] s' ∧ e.reachMeasure s' < e.reachMeasure s) ∨
    (∃ r, reachesBody target s = .done r ∧ e.ReachPost start target r) := by
  obtain ⟨seen, queue, engine⟩ := s
  cases queue with
  | nil =>
    refine .inr ⟨_, rfl, hs.charged, fun _ => ⟨by simp, fun h => ?_⟩⟩
    exact absurd (hs.below_seen rfl h) hs.target_unseen
  | cons id queue =>
    have hch : Charged e engine.count := hs.charged.trans (count_charged _)
    simp only [reachesBody]
    split_ifs with hex
    · exact .inr ⟨_, rfl, hch, fun h => by simp [hex] at h⟩
    · have hnb : engine.count.dependents.neighbours id = e.dependents.neighbours id := by
        rw [hch.dependents]
      have hpop : e.ReachInv start target (engine.count.dependents.neighbours id) ⟨seen, queue, engine.count⟩ := by
        refine ⟨hch, hs.seen_below, fun x hx => hs.queue_seen x (List.mem_cons_of_mem _ hx), hs.target_unseen, ?_⟩
        intro x hx hq y hy
        by_cases hxid : x = id
        · right
          rw [hnb, ← hxid]
          exact hy
        · have hq' : x ∉ id :: queue := by
            intro h
            rcases List.mem_cons.mp h with h | h
            · exact hxid h
            · exact hq h
          exact (hs.explored x hx hq' y hy).imp_right fun h => absurd h List.not_mem_nil
      rcases reachesEdges_spec hg _ ⟨seen, queue, engine.count⟩
          (hs.queue_seen id (List.mem_cons_self ..)) (fun y hy => by rw [hnb] at hy; exact hy)
          hpop with ⟨s', h1, h2, h3⟩ | h
      · refine .inl ⟨s', h1, h2, lt_of_le_of_lt h3 ?_⟩
        simp only [reachMeasure, List.length_cons]
        omega
      · exact .inr h

theorem reaches_spec (hg : e.GraphInv) (start target : String) : e.ReachPost start target (e.reaches start target) := by
  have hinit : e.ReachInv start target [] ⟨∅, [start], e.count⟩ := by
    refine ⟨count_charged e, by simp, by simp, by simp, ?_⟩
    intro x hx hq
    rcases hx with rfl | hx
    · simp at hq
    · simp at hx
  have hsum : e.dependencies.weightOutside (fun n => decide (n ∈ (∅ : OrderedSet String)))
      (fun _ => 1) ≤ e.dependencies.size := by
    simp [OrderedMap.weightOutside, OrderedMap.size]
  obtain ⟨r, hr, hpost⟩ := run_spec (reachesBody target) (reachMeasure e)
    (e.ReachInv start target []) (e.ReachPost start target)
    (fun s s' hs hb => by
      rcases reachesBody_spec hg s hs with ⟨s'', h1, h2, h3⟩ | ⟨r, h1, -⟩
      · rw [hb, Step.again.injEq] at h1
        subst h1
        exact ⟨h2, h3⟩
      · rw [hb] at h1
        cases h1)
    (fun s r hs hb => by
      rcases reachesBody_spec hg s hs with ⟨s'', h1, -⟩ | ⟨r', h1, h2⟩
      · rw [hb] at h1
        cases h1
      · rw [hb, Step.done.injEq] at h1
        subst h1
        exact h2)
    (e.dependencies.size + 2) ⟨∅, [start], e.count⟩ hinit (by
      simp only [reachMeasure, List.length_singleton]
      omega)
  rw [reaches, (count_charged e).dependencies, hr]
  exact hpost

/-! ## `addFrontierRoot` and `computeFrontier` -/

theorem Charged.graphInv (h : Charged e e') (hg : e.GraphInv) : e'.GraphInv := by
  obtain ⟨hmirror, hknown, hacyc, hnamed⟩ := hg
  unfold DependsOn Edge at hmirror
  unfold DependsOn at hknown hacyc
  refine ⟨?_, ?_, ?_, ?_⟩
  all_goals
    first | unfold DependsOn Edge | unfold DependsOn | skip
    rw [h.dependencies]
  · rw [h.dependents]
    exact hmirror
  · exact hknown
  · exact hacyc
  · exact hnamed

theorem Charged.below (h : Charged e e') : e'.Below = e.Below := by
  have hedge : e'.Edge = e.Edge := by
    funext a b
    unfold Edge
    rw [h.dependents]
  unfold Below
  funext a b
  rw [hedge]

theorem addFrontierRootFrom_spec (hg : e.GraphInv) {F : OrderedSet String} {S : Set String}
    (root : String) (rest : List String) (frontier : OrderedSet String)
    (e1 : IncrementalFrontierEngine) (hch : Charged e e1) (hnd : rest.Nodup)
    (hsub : ∀ x ∈ rest, x ∈ F) (hmem : ∀ x, x ∈ frontier ↔ x ∈ F ∧ (x ∈ rest ∨ ¬ e.Below root x))
    (hpassed : ∀ x ∈ F, x ∉ rest → x ≠ root ∧ ¬ e.Below x root) :
    Charged e (addFrontierRootFrom root rest frontier e1).1 ∧
      ((addFrontierRootFrom root rest frontier e1).1.frontierBudgetExceeded = false → IsFrontier e.Below {m | m ∈ F} S →
        IsFrontier e.Below {m | m ∈ (addFrontierRootFrom root rest frontier e1).2}
          (insert root S)) := by
  induction rest generalizing frontier e1 with
  | nil =>
    refine ⟨hch, fun _ hF => ?_⟩
    have hset : {m | m ∈ frontier.add root} = insert root {m ∈ {m | m ∈ F} | ¬ e.Below root m} := by
      ext m
      simp [hmem m]
    rw [addFrontierRootFrom, hset]
    refine hF.insert_new (hg.not_below_self root) ?_
    rintro ⟨x, hx, hroot⟩
    obtain ⟨h1, h2⟩ := hpassed x hx List.not_mem_nil
    exact hroot.elim h1 h2
  | cons x rest ih =>
    rw [List.nodup_cons] at hnd
    have hxF : x ∈ F := hsub x (List.mem_cons_self ..)
    -- an early return leaves the frontier as it was: nothing below `root` is above `x`
    have hearly : IsFrontier e.Below {m | m ∈ F} S → x = root ∨ e.Below x root →
        IsFrontier e.Below {m | m ∈ frontier} (insert root S) := by
      intro hF hx
      have hset : {m | m ∈ frontier} = {m | m ∈ F} := by
        ext m
        show m ∈ frontier ↔ m ∈ F
        rw [hmem m, and_iff_left_of_imp]
        intro hm
        refine .inr fun hrm => ?_
        rcases hx with rfl | hx
        · exact hF.antichain _ hxF _ hm hrm
        · exact hF.antichain _ hxF _ hm (TransGen.trans hx hrm)
      rw [hset]
      exact hF.insert_dominated ⟨x, hxF, hx⟩
    have hch2 := hch.trans (count_charged e1)
    simp only [addFrontierRootFrom]
    by_cases hex : e1.count.frontierBudgetExceeded = true
    · rw [if_pos hex]
      exact ⟨hch2, fun h => by simp [hex] at h⟩
    rw [if_neg hex]
    by_cases hxr : x = root
    · rw [if_pos hxr]
      exact ⟨hch2, fun _ hF => hearly hF (Or.inl hxr)⟩
    rw [if_neg hxr]
    obtain ⟨hch3, hbelow⟩ := reaches_spec (hch2.graphInv hg) x root
    generalize e1.count.reaches x root = p at hch3 hbelow ⊢
    obtain ⟨e3, below⟩ := p
    replace hch3 := hch2.trans hch3
    rw [hch2.below] at hbelow
    by_cases hb : below = true
    · rw [if_pos hb]
      exact ⟨hch3, fun hok hF => hearly hF (Or.inr ((hbelow hok).mp hb))⟩
    rw [if_neg hb]
    obtain ⟨hch4, habove⟩ := reaches_spec (hch3.graphInv hg) root x
    generalize e3.reaches root x = p at hch4 habove ⊢
    obtain ⟨e4, above⟩ := p
    rw [hch3.below] at habove
    by_cases hex4 : e4.frontierBudgetExceeded = true
    · rw [if_pos hex4]
      exact ⟨hch3.trans hch4, fun h => by simp [hex4] at h⟩
    rw [if_neg hex4]
    have hok4 : e4.frontierBudgetExceeded = false := by simpa using hex4
    obtain ⟨hok3, -⟩ := hch4.within hok4
    have hnb : ¬ e.Below x root := fun h => hb ((hbelow hok3).mpr h)
    refine ih _ e4 (hch3.trans hch4) hnd.2 (fun y hy => hsub y (List.mem_cons_of_mem _ hy)) ?_ ?_
    · intro y
      by_cases hyx : y = x
      · subst hyx
        by_cases ha : above = true
        · simp [ha, (habove hok4).mp ha, hnd.1]
        · have : ¬ e.Below root y := fun h => ha ((habove hok4).mpr h)
          simp [ha, hmem y, this, hxF]
      · have : y ∈ frontier ↔ y ∈ F ∧ (y ∈ rest ∨ ¬ e.Below root y) := by
          rw [hmem y, List.mem_cons]
          simp [hyx]
        split_ifs
        · rw [OrderedSet.mem_erase, this]
          simp [hyx]
        · exact this
    · intro y hy hrest
      by_cases hyx : y = x
      · exact hyx ▸ ⟨hxr, hnb⟩
      · exact hpassed y hy (by simp [hyx, hrest])

theorem addFrontierRoot_spec (hg : e.GraphInv) (F : OrderedSet String) (root : String) :
    Charged e (e.addFrontierRoot F root).1 ∧ ((e.addFrontierRoot F root).1.frontierBudgetExceeded = false → ∀ S,
        IsFrontier e.Below {m | m ∈ F} S →
        IsFrontier e.Below {m | m ∈ (e.addFrontierRoot F root).2} (insert root S)) := by
  have hspec := fun S => addFrontierRootFrom_spec (S := S) hg root F.elems F e
    (Charged.refl e) F.nodup (fun _ h => h) (fun x => by simp +contextual [OrderedSet.mem_def])
    (fun x hx hn => absurd hx hn)
  exact ⟨(hspec ∅).1, fun hok S => (hspec S).2 hok⟩

theorem computeFrontierFrom_spec (roots : List String) (F : OrderedSet String)
    {S : Set String} (hg : e.GraphInv) (hF : IsFrontier e.Below {m | m ∈ F} S) :
    Charged e (computeFrontierFrom roots F e).1 ∧ ((computeFrontierFrom roots F e).1.frontierBudgetExceeded = false →
        IsFrontier e.Below {m | m ∈ (computeFrontierFrom roots F e).2}
          (S ∪ {r | r ∈ roots ∧ r ∉ e.inactiveDirtyRoots})) := by
  induction roots generalizing F S e with
  | nil =>
    refine ⟨Charged.refl e, fun _ => ?_⟩
    simpa [computeFrontierFrom] using hF
  | cons root roots ih =>
    simp only [computeFrontierFrom]
    by_cases hdead : root ∈ e.inactiveDirtyRoots
    · rw [if_pos hdead]
      obtain ⟨hch, hres⟩ := ih F hg hF
      refine ⟨hch, fun hok => ?_⟩
      have hset : {r | r ∈ root :: roots ∧ r ∉ e.inactiveDirtyRoots} = {r | r ∈ roots ∧ r ∉ e.inactiveDirtyRoots} := by
        ext r
        have : r = root → r ∈ e.inactiveDirtyRoots := fun h => h ▸ hdead
        simp only [List.mem_cons, Set.mem_ofPred_eq]
        tauto
      rw [hset]
      exact hres hok
    · rw [if_neg hdead]
      obtain ⟨hch, hfr⟩ := addFrontierRoot_spec hg F root
      generalize e.addFrontierRoot F root = p at hch hfr ⊢
      obtain ⟨e2, F2⟩ := p
      by_cases hex : e2.frontierBudgetExceeded = true
      · rw [if_pos hex]
        exact ⟨hch, fun h => by simp [hex] at h⟩
      · rw [if_neg hex]
        have hok2 : e2.frontierBudgetExceeded = false := by simpa using hex
        obtain ⟨-, w, rfl⟩ := hch.within hok2
        obtain ⟨hch2, hres⟩ := ih F2 (hch.graphInv hg) (hfr hok2 S hF)
        refine ⟨hch.trans hch2, fun hok => ?_⟩
        have hset : S ∪ {r | r ∈ root :: roots ∧ r ∉ e.inactiveDirtyRoots}
            = insert root S ∪ {r | r ∈ roots ∧ r ∉ e.inactiveDirtyRoots} := by
          ext r
          have : r = root → r ∉ e.inactiveDirtyRoots := fun h => h ▸ hdead
          simp only [List.mem_cons, Set.mem_union, Set.mem_insert_iff, Set.mem_ofPred_eq]
          tauto
        rw [hset]
        exact hres hok

theorem computeFrontier_spec (hg : e.GraphInv) (roots : List String) : Charged e (e.computeFrontier roots).1 ∧
      ((e.computeFrontier roots).1.frontierBudgetExceeded = false → IsFrontier e.Below {m | m ∈ (e.computeFrontier roots).2}
          {r | r ∈ roots ∧ r ∉ e.inactiveDirtyRoots}) := by
  have hempty : IsFrontier e.Below {m | m ∈ (∅ : OrderedSet String)} ∅ := by
    simpa using IsFrontier.empty (r := e.Below)
  have h := computeFrontierFrom_spec roots ∅ hg hempty
  rwa [Set.empty_union] at h

theorem addFrontierRoot_exceeded (h : e.frontierBudgetExceeded = true) (F : OrderedSet String)
    (root : String) : (e.addFrontierRoot F root).1.frontierBudgetExceeded = true := by
  rw [addFrontierRoot]
  cases F.elems with
  | nil => exact h
  | cons x rest => simp [addFrontierRootFrom, count_of_exceeded h, h]

theorem computeFrontierFrom_exceeded (h : e.frontierBudgetExceeded = true) (roots : List String)
    (F : OrderedSet String) :
    (computeFrontierFrom roots F e).1.frontierBudgetExceeded = true := by
  induction roots with
  | nil => exact h
  | cons root roots ih =>
    simp only [computeFrontierFrom, addFrontierRoot_exceeded h F root, if_true]
    split_ifs
    · exact ih
    · exact addFrontierRoot_exceeded h F root

theorem refreshFrontier_spec (hg : e.GraphInv) (n : String) (roots : List String)
    (hok : (updateDirtyState { (e.computeFrontier roots).1 with
      activeFrontiers := (e.computeFrontier roots).1.activeFrontiers.set n
        (e.computeFrontier roots).2 } n).frontierBudgetExceeded = false) :
    e.frontierBudgetExceeded = false ∧ ∃ w F, updateDirtyState { (e.computeFrontier roots).1 with
        activeFrontiers := (e.computeFrontier roots).1.activeFrontiers.set n
          (e.computeFrontier roots).2 } n
        = { e with activeFrontiers := e.activeFrontiers.set n F, frontierWorkUsed := w } ∧
      IsFrontier e.Below {m | m ∈ F} {r | r ∈ roots ∧ r ∉ e.inactiveDirtyRoots} := by
  obtain ⟨hch, hfr⟩ := computeFrontier_spec hg roots
  generalize e.computeFrontier roots = p at hch hfr hok ⊢
  obtain ⟨e1, F⟩ := p
  obtain ⟨hok1, w, hw⟩ := (updateDirtyState_charged _ n).within hok
  obtain ⟨hoke, w₁, rfl⟩ := hch.within hok1
  exact ⟨hoke, w, F, hw, hfr hok1⟩

end IncrementalFrontierEngine

end Premise.FrontierEngine
