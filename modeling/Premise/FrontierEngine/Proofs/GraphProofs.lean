import Premise.FrontierEngine.Engine
import Premise.Graph.Search

/-!
# Proofs: the cycle checks

A node is *accessible* when no infinite path of dependencies starts from it. Both searches close a
node only after all its dependencies, so that a closed node is accessible; and both take at most two
rounds for each edge, plus a constant.
-/

namespace Premise.FrontierEngine

open Collections Control Js Relation

namespace Adjacency

/-- `n` directly depends on `d`. -/
def Dep (g : Adjacency) (n d : String) : Prop := d ∈ g.neighbours n

theorem neighbours_nodup (g : Adjacency) (n : String) : (g.neighbours n).Nodup :=
  ((g.get? n).getD ∅).nodup

theorem neighbours_set (g : Adjacency) (id n : String) (s : OrderedSet String) :
    neighbours (g.set id s) n = if n = id then s.elems else g.neighbours n := by
  by_cases h : n = id
  · simp [neighbours, h]
  · simp [neighbours, OrderedMap.get?_set, h]

theorem neighbours_erase (g : Adjacency) (id n : String) :
    neighbours (g.erase id) n = if n = id then [] else g.neighbours n := by
  by_cases h : n = id
  · simp [neighbours, h]
  · simp [neighbours, OrderedMap.get?_erase, h]

theorem mem_neighbours_addEdge (g : Adjacency) (id member n d : String) :
    d ∈ neighbours (g.addEdge id member) n ↔ (n = id ∧ d = member) ∨ d ∈ g.neighbours n := by
  rw [addEdge, neighbours_set]
  by_cases h : n = id
  · subst h
    rw [if_pos rfl, ← OrderedSet.mem_def, OrderedSet.mem_add]
    simp [neighbours, OrderedSet.mem_def]
  · simp [h]

theorem mem_keys_of_neighbour (g : Adjacency) {n d : String} (h : d ∈ g.neighbours n) : n ∈ g.keys := by
  cases hn : g.get? n with
  | none => simp [neighbours, hn] at h
  | some s => exact g.mem_keys_of_get? hn

theorem getD_weight (g : Adjacency) (n : String) :
    ((g.get? n).map (fun s => 2 * s.size)).getD 0 = 2 * (g.neighbours n).length := by
  cases hn : g.get? n with
  | none => simp [neighbours, hn]
  | some s => simp [neighbours, hn, OrderedSet.size]

theorem weightOutside_le (g : Adjacency) (p : String → Bool) :
    g.weightOutside p (fun s => 2 * s.size) ≤ 2 * g.edgeCount := by
  have key : ∀ l : List (String × OrderedSet String), ((l.filter (fun e => !p e.1)).map (fun e => 2 * e.2.size)).sum
        ≤ 2 * (l.map (fun e => e.2.size)).sum := by
    intro l
    induction l with
    | nil => simp
    | cons e l ih =>
      cases hpe : p e.1 with
      | true => rw [List.filter_cons_of_neg (by simp [hpe])]; simp; omega
      | false => rw [List.filter_cons_of_pos (by simp [hpe])]; simp; omega
  exact key g.entries

end Adjacency

open Adjacency

/-! ## `assertAcyclic` -/

variable {visited : OrderedSet String} {stack : List DfsFrame}

theorem pushDependencies_ok {visiting : OrderedSet String} {deps : List String} {stack' : List DfsFrame}
    (h : pushDependencies visiting visited deps stack = .ok stack') :
    ∃ pushed : List String, stack' = pushed.map (fun d => ⟨d, false⟩) ++ stack ∧
      (∀ d ∈ deps, d ∈ visited ∨ d ∈ pushed) ∧ (∀ d ∈ pushed, d ∈ deps) ∧
      pushed.length ≤ deps.length := by
  induction deps generalizing stack with
  | nil =>
    cases h
    exact ⟨[], rfl, by simp, by simp, le_rfl⟩
  | cons d deps ih =>
    rw [pushDependencies] at h
    split_ifs at h with h1 h2
    · obtain ⟨pushed, rfl, hd, hp, hl⟩ := ih h
      refine ⟨pushed, rfl, ?_, fun x hx => List.mem_cons_of_mem d (hp x hx), by simp only [List.length_cons]; omega⟩
      intro x hx
      rcases List.mem_cons.mp hx with rfl | hx
      · exact .inl h2
      · exact hd x hx
    · obtain ⟨pushed, rfl, hd, hp, hl⟩ := ih h
      have hlen : (pushed ++ [d]).length ≤ (d :: deps).length := by
        rw [List.length_append, List.length_singleton, List.length_cons]
        omega
      refine ⟨pushed ++ [d], by simp, ?_, ?_, hlen⟩
      · intro x hx
        rcases List.mem_cons.mp hx with rfl | hx
        · exact .inr (by simp)
        · rcases hd x hx with h | h
          · exact .inl h
          · exact .inr (List.mem_append_left _ h)
      · intro x hx
        rcases List.mem_append.mp hx with hx | hx
        · exact List.mem_cons_of_mem d (hp x hx)
        · exact List.mem_singleton.mp hx ▸ List.mem_cons_self ..

theorem pushDependencies_error {visiting : OrderedSet String} {deps : List String} {err : JsError}
    (h : pushDependencies visiting visited deps stack = .error err) : ∃ d ∈ deps, d ∈ visiting := by
  induction deps generalizing stack with
  | nil => cases h
  | cons d deps ih =>
    rw [pushDependencies] at h
    split_ifs at h with h1 h2
    · exact ⟨d, List.mem_cons_self .., h1⟩
    all_goals
      obtain ⟨x, hx, hopen⟩ := ih h
      exact ⟨x, List.mem_cons_of_mem d hx, hopen⟩

/-- Every dependency of a node that waits to be left is visited or has a frame above it; `above`
    lists the nodes of the frames above the stack. -/
def StackOk (g : Adjacency) (visited : OrderedSet String) : List String → List DfsFrame → Prop
  | _, [] => True
  | above, f :: stack =>
    (f.exit = true → ∀ d, g.Dep f.id d → d ∈ visited ∨ d ∈ above) ∧
      StackOk g visited (f.id :: above) stack

variable {g : Adjacency}

theorem StackOk.mono {visited' : OrderedSet String} {above above' : List String}
    (hv : ∀ d, d ∈ visited → d ∈ visited') (ha : ∀ d ∈ above, d ∈ visited' ∨ d ∈ above')
    (h : StackOk g visited above stack) : StackOk g visited' above' stack := by
  induction stack generalizing above above' with
  | nil => trivial
  | cons f stack ih =>
    refine ⟨fun hf d hd => ?_, ih ?_ h.2⟩
    · rcases h.1 hf d hd with h | h
      · exact .inl (hv d h)
      · exact ha d h
    · intro d hd
      rcases List.mem_cons.mp hd with rfl | hd
      · exact .inr (List.mem_cons_self ..)
      · rcases ha d hd with h | h
        · exact .inl h
        · exact .inr (List.mem_cons_of_mem _ h)

theorem StackOk.push {pushed above : List String} (h : StackOk g visited (pushed.reverse ++ above) stack) :
    StackOk g visited above (pushed.map (fun d => ⟨d, false⟩) ++ stack) := by
  induction pushed generalizing above with
  | nil => simpa using h
  | cons d pushed ih =>
    refine ⟨by simp, ih ?_⟩
    simpa using h

/-- The invariant of `assertAcyclic(start)`. -/
structure DfsInv (g : Adjacency) (start : String) (s : DfsState) : Prop where
  visited_acc : ∀ n ∈ s.visited, Acc (fun d n => g.Dep n d) n
  stack_ok : StackOk g s.visited [] s.stack
  start_found : start ∈ s.visited ∨ ∃ f ∈ s.stack, f.id = start

variable {start : String}

theorem assertAcyclicBody_again {s s' : DfsState} (hs : DfsInv g start s) (h : assertAcyclicBody g s = .again s') :
    DfsInv g start s' := by
  obtain ⟨visiting, visited, stack⟩ := s
  obtain ⟨hacc, hok, hstart⟩ := hs
  cases stack with
  | nil => simp [assertAcyclicBody] at h
  | cons f stack =>
    simp only [assertAcyclicBody] at h
    split_ifs at h with hexit hvis hopen
    · -- leaving `f`: everything above it is gone, so its dependencies are visited
      obtain rfl := Step.again.inj h
      have hf : Acc (fun d n => g.Dep n d) f.id :=
        Acc.intro _ (fun d hd => hacc d ((hok.1 hexit d hd).resolve_right (List.not_mem_nil)))
      refine ⟨?_, ?_, ?_⟩
      · intro n hn
        rcases OrderedSet.mem_add.mp hn with rfl | hn
        · exact hf
        · exact hacc n hn
      · exact hok.2.mono (fun d hd => OrderedSet.mem_add.mpr (Or.inr hd))
          (fun d hd => Or.inl (OrderedSet.mem_add.mpr (Or.inl (List.mem_singleton.mp hd))))
      · rcases hstart with h | ⟨f', hf', he⟩
        · exact .inl (OrderedSet.mem_add.mpr (Or.inr h))
        · rcases List.mem_cons.mp hf' with rfl | hf'
          · exact .inl (OrderedSet.mem_add.mpr (Or.inl he.symm))
          · exact .inr ⟨f', hf', he⟩
    · obtain rfl := Step.again.inj h
      refine ⟨hacc, hok.2.mono (fun _ h => h) (fun d hd => Or.inl ?_), ?_⟩
      · rw [List.mem_singleton.mp hd]; exact hvis
      · rcases hstart with h | ⟨f', hf', he⟩
        · exact .inl h
        · rcases List.mem_cons.mp hf' with rfl | hf'
          · exact .inl (he ▸ hvis)
          · exact .inr ⟨f', hf', he⟩
    · -- entering `f`: its unvisited dependencies go above its exit frame
      cases hp : pushDependencies (visiting.add f.id) visited (g.neighbours f.id).reverse (⟨f.id, true⟩ :: stack) with
      | error err => simp [hp] at h
      | ok stack' =>
        simp only [hp, Step.again.injEq] at h
        subst h
        obtain ⟨pushed, rfl, hdeps, -, -⟩ := pushDependencies_ok hp
        refine ⟨hacc, StackOk.push ⟨fun _ d hd => ?_, ?_⟩, ?_⟩
        · rcases hdeps d (List.mem_reverse.mpr hd) with h | h
          · exact .inl h
          · exact .inr (by simpa using h)
        · refine hok.2.mono (fun _ h => h) (fun d hd => Or.inr ?_)
          rw [List.mem_singleton.mp hd]
          exact List.mem_cons_self ..
        · rcases hstart with h | ⟨f', hf', he⟩
          · exact .inl h
          · rcases List.mem_cons.mp hf' with rfl | hf'
            · exact .inr ⟨⟨f'.id, true⟩, by simp, he⟩
            · exact .inr ⟨f', by simp [hf'], he⟩

theorem assertAcyclic_sound (h : assertAcyclic g start = .ok ()) : Acc (fun d n => g.Dep n d) start := by
  unfold assertAcyclic at h
  cases hr : run (assertAcyclicBody g) (2 * g.edgeCount + 3) ⟨∅, ∅, [⟨start, false⟩]⟩ with
  | none => simp [hr] at h
  | some r =>
    rw [hr, Option.getD_some] at h
    subst h
    refine run_some_spec (assertAcyclicBody g) (DfsInv g start)
      (fun r => r = .ok () → Acc (fun d n => g.Dep n d) start) (fun s s' hs hb => assertAcyclicBody_again hs hb) ?_ _ _ ?_ hr rfl
    · intro s a hs hb ha
      obtain ⟨visiting, visited, stack⟩ := s
      cases stack with
      | nil =>
        rcases hs.start_found with h | ⟨f, hf, -⟩
        · exact hs.visited_acc _ h
        · simp at hf
      | cons f stack =>
        simp only [assertAcyclicBody] at hb
        split_ifs at hb with h1 h2 h3
        · rw [Step.done.injEq] at hb
          rw [← hb] at ha
          cases ha
        · split at hb
          · rw [Step.done.injEq] at hb
            rw [← hb] at ha
            cases ha
          · cases hb
    · exact ⟨by simp, ⟨by simp, trivial⟩, Or.inr ⟨_, List.mem_singleton.mpr rfl, rfl⟩⟩

/-- The rounds that `assertAcyclic` still needs: two for each dependency of a node that was not
    entered yet, two for each node to be entered and one for each node to be left. -/
def dfsMeasure (g : Adjacency) (s : DfsState) : Nat :=
  g.weightOutside (fun n => decide (n ∈ s.visiting ∨ n ∈ s.visited)) (fun d => 2 * d.size)
    + (s.stack.map (fun f => if f.exit then 1 else 2)).sum

theorem assertAcyclicBody_measure {s s' : DfsState} (h : assertAcyclicBody g s = .again s') :
    dfsMeasure g s' < dfsMeasure g s := by
  obtain ⟨visiting, visited, stack⟩ := s
  cases stack with
  | nil => simp [assertAcyclicBody] at h
  | cons f stack =>
    simp only [assertAcyclicBody] at h
    split_ifs at h with hexit hvis hopen
    · obtain rfl := Step.again.inj h
      have hle : g.weightOutside (fun n => decide (n ∈ visiting.erase f.id ∨ n ∈ visited.add f.id))
          (fun d => 2 * d.size)
          ≤ g.weightOutside (fun n => decide (n ∈ visiting ∨ n ∈ visited)) (fun d => 2 * d.size) := by
        by_cases hf : f.id ∈ visiting ∨ f.id ∈ visited
        · refine le_of_eq (g.weightOutside_congr _ (fun n => ?_))
          by_cases hn : n = f.id
          · subst hn; simp [hf]
          · simp [hn]
        · have := g.weightOutside_insert (p := fun n => decide (n ∈ visiting ∨ n ∈ visited))
            (q := fun n => decide (n ∈ visiting.erase f.id ∨ n ∈ visited.add f.id))
            (fun d => 2 * d.size) (k := f.id) (by simpa using hf) (fun n => by
              by_cases hn : n = f.id
              · simp [hn]
              · simp [hn])
          omega
      simp only [dfsMeasure, List.map_cons, List.sum_cons, hexit, if_true]
      omega
    · obtain rfl := Step.again.inj h
      simp only [dfsMeasure, List.map_cons, List.sum_cons, if_neg hexit]
      omega
    · cases hp : pushDependencies (visiting.add f.id) visited (g.neighbours f.id).reverse (⟨f.id, true⟩ :: stack) with
      | error err => simp [hp] at h
      | ok stack' =>
        simp only [hp, Step.again.injEq] at h
        subst h
        obtain ⟨pushed, rfl, -, -, hlen⟩ := pushDependencies_ok hp
        have hw := g.weightOutside_insert (p := fun n => decide (n ∈ visiting ∨ n ∈ visited))
          (q := fun n => decide (n ∈ visiting.add f.id ∨ n ∈ visited)) (fun d => 2 * d.size)
          (k := f.id) (by simp [hopen, hvis]) (fun n => by
            by_cases hn : n = f.id
            · simp [hn]
            · simp [hn])
        rw [getD_weight] at hw
        have hsum : ((pushed.map (fun d => (⟨d, false⟩ : DfsFrame))).map
            (fun f => if f.exit then 1 else 2)).sum = 2 * pushed.length := by
          rw [List.map_map]
          simp [Function.comp_def, mul_comm]
        rw [List.length_reverse] at hlen
        simp only [dfsMeasure, List.map_append, List.sum_append, List.map_cons, List.sum_cons, hsum, if_true, if_neg hexit]
        omega

theorem assertAcyclic_runs (g : Adjacency) (start : String) :
    ∃ r, run (assertAcyclicBody g) (2 * g.edgeCount + 3) ⟨∅, ∅, [⟨start, false⟩]⟩ = some r := by
  obtain ⟨r, hr, -⟩ := run_spec (assertAcyclicBody g) (dfsMeasure g) (fun _ => True)
    (fun _ => True) (fun s s' _ hb => ⟨trivial, assertAcyclicBody_measure hb⟩) (fun _ _ _ _ => trivial)
    (2 * g.edgeCount + 3) ⟨∅, ∅, [⟨start, false⟩]⟩ trivial (by
      have := g.weightOutside_le (fun n => decide (n ∈ (∅ : OrderedSet String) ∨
        n ∈ (∅ : OrderedSet String)))
      simp only [dfsMeasure, List.map_cons, List.map_nil, List.sum_cons, List.sum_nil]
      simp only [Bool.false_eq_true, if_false]
      omega)
  exact ⟨r, hr⟩

/-- The nodes whose search is open wait on the stack to be left, and each of them transitively
    depends on the nodes of all frames above it. -/
structure PathInv (g : Adjacency) (s : DfsState) : Prop where
  waiting : ∀ n ∈ s.visiting, ⟨n, true⟩ ∈ s.stack
  path : s.stack.Pairwise (fun above below => below.exit = true → TransGen g.Dep below.id above.id)

theorem PathInv.again {s s' : DfsState} (hs : PathInv g s) (h : assertAcyclicBody g s = .again s') : PathInv g s' := by
  obtain ⟨visiting, visited, stack⟩ := s
  obtain ⟨hwait, hpath⟩ := hs
  cases stack with
  | nil => simp [assertAcyclicBody] at h
  | cons f stack =>
    obtain ⟨habove, hstack⟩ := List.pairwise_cons.mp hpath
    simp only [assertAcyclicBody] at h
    split_ifs at h with hexit hvis hopen
    · obtain rfl := Step.again.inj h
      refine ⟨fun n hn => ?_, hstack⟩
      obtain ⟨hne, hn⟩ := OrderedSet.mem_erase.mp hn
      refine (List.mem_cons.mp (hwait n hn)).resolve_left fun he => hne ?_
      rw [← he]
    · obtain rfl := Step.again.inj h
      refine ⟨fun n hn => (List.mem_cons.mp (hwait n hn)).resolve_left (fun he => hexit ?_), hstack⟩
      rw [← he]
    · cases hp : pushDependencies (visiting.add f.id) visited (g.neighbours f.id).reverse (⟨f.id, true⟩ :: stack) with
      | error err => simp [hp] at h
      | ok stack' =>
        simp only [hp, Step.again.injEq] at h
        subst h
        obtain ⟨pushed, rfl, -, hpushed, -⟩ := pushDependencies_ok hp
        have hedge : ∀ d ∈ pushed, g.Dep f.id d := fun d hd => List.mem_reverse.mp (hpushed d hd)
        refine ⟨fun n hn => ?_, ?_⟩
        · rcases OrderedSet.mem_add.mp hn with rfl | hn
          · exact List.mem_append_right _ (List.mem_cons_self ..)
          · refine List.mem_append_right _ (List.mem_cons_of_mem _ ?_)
            exact (List.mem_cons.mp (hwait n hn)).resolve_left fun he => hexit (by rw [← he])
        · refine List.pairwise_append.mpr ⟨?_, List.pairwise_cons.mpr ⟨habove, hstack⟩, ?_⟩
          · exact List.pairwise_map.mpr (List.pairwise_of_forall (fun _ _ hfalse => by cases hfalse))
          · intro a ha b hb hbexit
            obtain ⟨d, hd, rfl⟩ := List.mem_map.mp ha
            rcases List.mem_cons.mp hb with rfl | hb
            · exact TransGen.single (hedge d hd)
            · exact TransGen.tail (habove b hb hbexit) (hedge d hd)

theorem assertAcyclic_error {err : JsError} (h : assertAcyclic g start = .error err) : ∃ n, TransGen g.Dep n n := by
  obtain ⟨r, hr⟩ := assertAcyclic_runs g start
  rw [assertAcyclic, hr, Option.getD_some] at h
  refine run_some_spec (assertAcyclicBody g) (PathInv g)
    (fun r => r = .error err → ∃ n, TransGen g.Dep n n) (fun s s' hs hb => hs.again hb) ?_ _ _ ?_ hr h
  · intro s a hs hb ha
    obtain ⟨visiting, visited, stack⟩ := s
    obtain ⟨hwait, hpath⟩ := hs
    cases stack with
    | nil =>
      simp only [assertAcyclicBody, Step.done.injEq] at hb
      rw [ha] at hb
      cases hb
    | cons f stack =>
      have habove := (List.pairwise_cons.mp hpath).1
      simp only [assertAcyclicBody] at hb
      split_ifs at hb with hexit hvis hopen
      · -- the node to be entered is open, so it waits below its own frame
        refine ⟨f.id, habove ⟨f.id, true⟩ ((List.mem_cons.mp (hwait f.id hopen)).resolve_left ?_) rfl⟩
        intro he
        exact hexit (by rw [← he])
      · split at hb
        · rename_i hpush
          obtain ⟨d, hd, hopen'⟩ := pushDependencies_error hpush
          have hedge : g.Dep f.id d := List.mem_reverse.mp hd
          rcases OrderedSet.mem_add.mp hopen' with rfl | hopen'
          · exact ⟨_, TransGen.single hedge⟩
          · refine ⟨d, TransGen.tail (habove ⟨d, true⟩ ((List.mem_cons.mp (hwait d hopen')).resolve_left ?_) rfl) hedge⟩
            intro he
            exact hexit (by rw [← he])
        · cases hb
  · exact ⟨by simp, List.pairwise_singleton ..⟩

/-! ## `assertAcyclicGraph` -/

/-- Every dependency that a frame has passed is closed, or is the node of the frame above it. -/
def FramesOk (g : Adjacency) (state : OrderedMap String Mark) : Option String → List GraphFrame → Prop
  | _, [] => True
  | above, f :: stack =>
    (∀ d, g.Dep f.id d → d ∈ f.remaining ∨ state.get? d = some .closed ∨ above = some d) ∧
      FramesOk g state (some f.id) stack

theorem FramesOk.mono {state state' : OrderedMap String Mark} {above : Option String} {stack : List GraphFrame}
    (hs : ∀ d, state.get? d = some .closed → state'.get? d = some .closed) (h : FramesOk g state above stack) :
    FramesOk g state' above stack := by
  induction stack generalizing above with
  | nil => trivial
  | cons f stack ih =>
    refine ⟨fun d hd => ?_, ih h.2⟩
    rcases h.1 d hd with h | h | h
    · exact .inl h
    · exact .inr (Or.inl (hs d h))
    · exact .inr (Or.inr h)

/-- The invariant of the inner loop of `assertAcyclicGraph`, started at `start`. -/
structure GraphDfsInv (g : Adjacency) (start : String)
    (s : OrderedMap String Mark × List GraphFrame) : Prop where
  closed_acc : ∀ n, s.1.get? n = some .closed → Acc (fun d n => g.Dep n d) n
  frames_ok : FramesOk g s.1 none s.2
  frames_open : ∀ f ∈ s.2, s.1.get? f.id = some .open_
  frames_nodup : (s.2.map (·.id)).Nodup
  start_found : s.1.get? start = some .closed ∨ ∃ f ∈ s.2, f.id = start

theorem assertAcyclicGraphBody_again {s s' : OrderedMap String Mark × List GraphFrame} (hs : GraphDfsInv g start s)
    (h : assertAcyclicGraphBody g s = .again s') : GraphDfsInv g start s' ∧
      (∀ n, s.1.get? n = some .closed → s'.1.get? n = some .closed) := by
  obtain ⟨state, stack⟩ := s
  obtain ⟨hacc, hok, hopen, hnd, hstart⟩ := hs
  match stack, h with
  | ⟨id, []⟩ :: stack, h =>
    -- closing `id`: all its dependencies are closed
    obtain rfl := Step.again.inj h
    have hid : Acc (fun d n => g.Dep n d) id := by
      refine Acc.intro _ fun d hd => hacc d ?_
      rcases hok.1 d hd with h | h | h
      · simp at h
      · exact h
      · simp at h
    have hmono : ∀ n, state.get? n = some .closed → (state.set id .closed).get? n = some .closed := by
      intro n hn
      rw [OrderedMap.get?_set]
      split_ifs
      · rfl
      · exact hn
    rw [List.map_cons, List.nodup_cons] at hnd
    have hne : ∀ f ∈ stack, f.id ≠ id := fun f hf he =>
      hnd.1 (List.mem_map.mpr ⟨f, hf, he⟩)
    refine ⟨⟨?_, ?_, ?_, hnd.2, ?_⟩, hmono⟩
    · intro n hn
      rw [OrderedMap.get?_set] at hn
      split_ifs at hn with hni
      · rw [hni]; exact hid
      · exact hacc n hn
    · have := hok.2.mono hmono
      cases stack with
      | nil => trivial
      | cons f stack =>
        refine ⟨fun d hd => ?_, this.2⟩
        rcases this.1 d hd with h | h | h
        · exact .inl h
        · exact .inr (Or.inl h)
        · refine .inr (Or.inl ?_)
          rw [← Option.some.inj h]
          exact OrderedMap.get?_set_self ..
    · intro f hf
      rw [OrderedMap.get?_set_of_ne _ _ (hne f hf)]
      exact hopen f (List.mem_cons_of_mem _ hf)
    · rcases hstart with h | ⟨f, hf, he⟩
      · exact .inl (hmono start h)
      · rcases List.mem_cons.mp hf with rfl | hf
        · dsimp only at he
          exact .inl (by rw [← he]; exact OrderedMap.get?_set_self ..)
        · exact .inr ⟨f, hf, he⟩
  | ⟨id, dependencyId :: remaining⟩ :: stack, h =>
    simp only [assertAcyclicGraphBody] at h
    cases hd : state.get? dependencyId with
    | some mark =>
      cases mark with
      | open_ => simp [hd] at h
      | closed =>
        simp only [hd, Step.again.injEq] at h
        subst h
        refine ⟨⟨hacc, ⟨fun d hdep => ?_, hok.2⟩, ?_, hnd, ?_⟩, fun _ h => h⟩
        · rcases hok.1 d hdep with h | h | h
          · rcases List.mem_cons.mp h with rfl | h
            · exact .inr (Or.inl hd)
            · exact .inl h
          · exact .inr (Or.inl h)
          · exact .inr (Or.inr h)
        · intro f hf
          rcases List.mem_cons.mp hf with rfl | hf
          · exact hopen ⟨id, dependencyId :: remaining⟩ (List.mem_cons_self ..)
          · exact hopen f (List.mem_cons_of_mem _ hf)
        · rcases hstart with h | ⟨f, hf, he⟩
          · exact .inl h
          · rcases List.mem_cons.mp hf with rfl | hf
            · exact .inr ⟨⟨id, remaining⟩, List.mem_cons_self .., he⟩
            · exact .inr ⟨f, List.mem_cons_of_mem _ hf, he⟩
    | none =>
      simp only [hd, Step.again.injEq] at h
      subst h
      have hmono : ∀ n, state.get? n = some .closed → (state.set dependencyId .open_).get? n = some .closed := by
        intro n hn
        rw [OrderedMap.get?_set_of_ne]
        · exact hn
        · rintro rfl
          rw [hd] at hn
          cases hn
      have hopen' : ∀ n, state.get? n = some .open_ → (state.set dependencyId .open_).get? n = some .open_ := by
        intro n hn
        rw [OrderedMap.get?_set]
        split_ifs
        · rfl
        · exact hn
      refine ⟨⟨?_, ⟨fun d hdep => Or.inl hdep, ⟨fun d hdep => ?_, hok.2.mono hmono⟩⟩, ?_, ?_, ?_⟩, hmono⟩
      · intro n hn
        refine hacc n ?_
        rw [OrderedMap.get?_set] at hn
        split_ifs at hn with hni
        · cases hn
        · exact hn
      · rcases hok.1 d hdep with h | h | h
        · rcases List.mem_cons.mp h with rfl | h
          · exact .inr (Or.inr rfl)
          · exact .inl h
        · exact .inr (Or.inl (hmono d h))
        · simp at h
      · intro f hf
        rcases List.mem_cons.mp hf with rfl | hf
        · exact OrderedMap.get?_set_self ..
        · rcases List.mem_cons.mp hf with rfl | hf
          · exact hopen' _ (hopen ⟨id, dependencyId :: remaining⟩ (List.mem_cons_self ..))
          · exact hopen' _ (hopen f (List.mem_cons_of_mem _ hf))
      · rw [List.map_cons, List.nodup_cons]
        refine ⟨?_, hnd⟩
        intro hmem
        have hmem' : dependencyId ∈ (⟨id, dependencyId :: remaining⟩ :: stack).map (·.id) := hmem
        obtain ⟨f, hf, he⟩ := List.mem_map.mp hmem'
        have := hopen f hf
        rw [he, hd] at this
        cases this
      · rcases hstart with h | ⟨f, hf, he⟩
        · exact .inl (hmono start h)
        · rcases List.mem_cons.mp hf with rfl | hf
          · exact .inr ⟨⟨id, remaining⟩, by simp, he⟩
          · exact .inr ⟨f, by simp [hf], he⟩

theorem assertAcyclicFrom_sound {starts : List String} {state : OrderedMap String Mark}
    (hacc : ∀ n, state.get? n = some .closed → Acc (fun d n => g.Dep n d) n)
    (hclosed : ∀ n, state.get? n ≠ some .open_) (h : assertAcyclicFrom g starts state = .ok ()) :
    ∀ n ∈ starts, Acc (fun d n => g.Dep n d) n := by
  induction starts generalizing state with
  | nil => simp
  | cons start starts ih =>
    rw [assertAcyclicFrom] at h
    split_ifs at h with hst
    · intro n hn
      rcases List.mem_cons.mp hn with rfl | hn
      · exact hacc n hst
      · exact ih hacc hclosed h n hn
    · cases hr : run (assertAcyclicGraphBody g) (2 * g.edgeCount + 2)
          (state.set start .open_, [⟨start, g.neighbours start⟩]) with
      | none => simp [hr] at h
      | some r =>
        rw [hr, Option.getD_some] at h
        cases r with
        | error err => simp at h
        | ok state' =>
          have hspec := run_some_spec (assertAcyclicGraphBody g) (fun s => GraphDfsInv g start s ∧
              ∀ n, s.1.get? n = some .open_ → ∃ f ∈ s.2, f.id = n)
            (fun r => ∀ st, r = .ok st → (∀ n, st.get? n = some .closed → Acc (fun d n => g.Dep n d) n) ∧
              (∀ n, st.get? n ≠ some .open_) ∧ st.get? start = some .closed)
            ?_ ?_ _ _ ?_ hr state' rfl
          · obtain ⟨h1, h2, h3⟩ := hspec
            intro n hn
            rcases List.mem_cons.mp hn with rfl | hn
            · exact h1 n h3
            · exact ih h1 h2 h n hn
          · rintro s s' ⟨hs, hso⟩ hb
            refine ⟨(assertAcyclicGraphBody_again hs hb).1, ?_⟩
            obtain ⟨state, stack⟩ := s
            match stack, hb with
            | ⟨id, []⟩ :: stack, hb =>
              obtain rfl := Step.again.inj hb
              intro n hn
              rw [OrderedMap.get?_set] at hn
              split_ifs at hn with hni
              · cases hn
              · obtain ⟨f, hf, he⟩ := hso n hn
                rcases List.mem_cons.mp hf with rfl | hf
                · exact absurd he.symm hni
                · exact ⟨f, hf, he⟩
            | ⟨id, dependencyId :: remaining⟩ :: stack, hb =>
              simp only [assertAcyclicGraphBody] at hb
              have hframe : ∀ n, state.get? n = some .open_ →
                  ∃ f ∈ (⟨id, remaining⟩ :: stack : List GraphFrame), f.id = n := by
                intro n hn
                obtain ⟨f, hf, he⟩ := hso n hn
                rcases List.mem_cons.mp hf with rfl | hf
                · exact ⟨⟨id, remaining⟩, List.mem_cons_self .., he⟩
                · exact ⟨f, List.mem_cons_of_mem _ hf, he⟩
              cases hd : state.get? dependencyId with
              | some mark =>
                cases mark with
                | open_ => simp [hd] at hb
                | closed =>
                  simp only [hd, Step.again.injEq] at hb
                  subst hb
                  exact hframe
              | none =>
                simp only [hd, Step.again.injEq] at hb
                subst hb
                intro n hn
                rw [OrderedMap.get?_set] at hn
                split_ifs at hn with hni
                · exact ⟨_, List.mem_cons_self .., hni.symm⟩
                · obtain ⟨f, hf, he⟩ := hframe n hn
                  exact ⟨f, List.mem_cons_of_mem _ hf, he⟩
          · rintro ⟨state, stack⟩ a ⟨hs, hso⟩ hb st rfl
            match stack, hb with
            | [], hb =>
              rw [assertAcyclicGraphBody, Step.done.injEq, Except.ok.injEq] at hb
              subst hb
              refine ⟨hs.closed_acc, fun n hn => ?_, ?_⟩
              · obtain ⟨f, hf, -⟩ := hso n hn
                simp at hf
              · rcases hs.start_found with h | ⟨f, hf, -⟩
                · exact h
                · simp at hf
            | ⟨id, dependencyId :: remaining⟩ :: stack, hb =>
              simp only [assertAcyclicGraphBody] at hb
              split at hb <;> simp at hb
          · refine ⟨⟨?_, ⟨fun d hd => Or.inl hd, trivial⟩, ?_, by simp, Or.inr ⟨_, List.mem_singleton.mpr rfl, rfl⟩⟩, ?_⟩
            · intro n hn
              rw [OrderedMap.get?_set] at hn
              split_ifs at hn
              · cases hn
              · exact hacc n hn
            · intro f hf
              rw [List.mem_singleton.mp hf]
              exact OrderedMap.get?_set_self ..
            · intro n hn
              rw [OrderedMap.get?_set] at hn
              split_ifs at hn with hni
              · exact ⟨_, List.mem_singleton.mpr rfl, hni.symm⟩
              · exact absurd hn (hclosed n)

theorem assertAcyclicGraph_sound (h : assertAcyclicGraph g = .ok ()) : WellFounded (fun d n => g.Dep n d) := by
  refine ⟨fun n => ?_⟩
  by_cases hn : n ∈ g.keys
  · exact assertAcyclicFrom_sound (by simp) (by simp) h n hn
  · refine Acc.intro n fun d hd => ?_
    exact absurd (g.mem_keys_of_neighbour hd) hn

end Premise.FrontierEngine
