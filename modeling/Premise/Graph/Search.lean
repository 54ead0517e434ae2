import Premise.Collections.OrderedMap
import Premise.Control.Loop

/-!
# Acyclic relations

A relation whose converse is well-founded has no cycles, and stays so when the successors of one
element are replaced by accessible ones.
-/

namespace Premise.Graph

open Relation

universe u

variable {α : Type u} {dep dep' : α → α → Prop}

theorem not_transGen_self (h : WellFounded (fun d n => dep n d)) (n : α) : ¬ TransGen dep n n := by
  intro hn
  have hwf : WellFounded (TransGen (fun d n => dep n d)) := h.transGen
  have hrev : ∀ a b, TransGen dep a b → TransGen (fun d n => dep n d) b a := by
    intro a b hab
    induction hab with
    | single hab => exact TransGen.single hab
    | tail _ hbc ih => exact TransGen.head hbc ih
  exact hwf.irrefl.irrefl n (hrev n n hn)

theorem wellFounded_update (h : WellFounded (fun d n => dep n d)) (id : α)
    (hid : Acc (fun d n => dep' n d) id) (hother : ∀ n, n ≠ id → ∀ d, dep' n d → dep n d) :
    WellFounded (fun d n => dep' n d) := by
  refine ⟨fun n => ?_⟩
  induction n using h.induction with
  | _ n ih =>
    by_cases hn : n = id
    · rw [hn]; exact hid
    · exact Acc.intro n fun d hd => ih d (hother n hn d hd)

theorem wellFounded_mono (h : WellFounded (fun d n => dep n d)) (hsub : ∀ n d, dep' n d → dep n d) :
    WellFounded (fun d n => dep' n d) := by
  refine ⟨fun n => ?_⟩
  induction n using h.induction with
  | _ n ih => exact Acc.intro n (fun d hd => ih d (hsub n d hd))

/-!
# Searches

Searches in a graph that is given by the successors of its nodes: the nodes that a list of nodes leads
to, breadth first, where a node is queued once or as often as it is met, and whether a node leads to
another, depth first. The loops are cut off after a number of rounds; a finite set of nodes that the
graph does not leave says how many suffice.
-/

open Collections Control

variable {κ : Type u} [DecidableEq κ] {next : κ → List κ}

/-- `a` leads to `b`. -/
def Leads (next : κ → List κ) (a b : κ) : Prop := ReflTransGen (fun a b => b ∈ next a) a b

/-! ## The nodes that a list leads to -/

/-- The nodes that have been seen, and those of them whose successors are still to be looked at. -/
structure Search (κ : Type u) where
  seen : OrderedSet κ
  queue : List κ

def Search.visit (s : Search κ) (id : κ) : Search κ :=
  if id ∈ s.seen then s else ⟨s.seen.add id, s.queue ++ [id]⟩

def closureBody (next : κ → List κ) (s : Search κ) : Step (Search κ) (OrderedSet κ) :=
  match s.queue with
  | [] => .done s.seen
  | id :: queue => .again ((next id).foldl Search.visit ⟨s.seen, queue⟩)

/-- The nodes that `start` leads to. -/
def closure (next : κ → List κ) (rounds : Nat) (start : List κ) : OrderedSet κ :=
  (run (closureBody next) rounds ⟨OrderedSet.ofList start, start⟩).getD ∅

/-- What was seen comes from `start`, with the successors of what is not queued. -/
structure Searched (next : κ → List κ) (start : List κ) (s : Search κ) : Prop where
  start_seen : ∀ a ∈ start, a ∈ s.seen
  sound : ∀ a ∈ s.seen, ∃ b ∈ start, Leads next b a
  queued : ∀ a ∈ s.queue, a ∈ s.seen
  closed : ∀ a ∈ s.seen, a ∉ s.queue → ∀ b ∈ next a, b ∈ s.seen

theorem mem_seen_visit (s : Search κ) (id a : κ) : a ∈ (s.visit id).seen ↔ a = id ∨ a ∈ s.seen := by
  unfold Search.visit
  split_ifs with h
  · constructor
    · exact .inr
    · rintro (rfl | ha)
      · exact h
      · exact ha
  · exact OrderedSet.mem_add

theorem mem_queue_visit (s : Search κ) (id a : κ) : a ∈ (s.visit id).queue ↔ a ∈ s.queue ∨ (a = id ∧ id ∉ s.seen) := by
  unfold Search.visit
  split_ifs with h
  · simp [h]
  · simp [h]

theorem mem_seen_foldl_visit (l : List κ) (s : Search κ) (a : κ) :
    a ∈ (l.foldl Search.visit s).seen ↔ a ∈ l ∨ a ∈ s.seen := by
  induction l generalizing s with
  | nil => simp
  | cons b l ih =>
    rw [List.foldl_cons, ih, mem_seen_visit, List.mem_cons]
    tauto

theorem mem_queue_foldl_visit (l : List κ) (s : Search κ) (a : κ) :
    a ∈ (l.foldl Search.visit s).queue ↔ a ∈ s.queue ∨ (a ∈ l ∧ a ∉ s.seen) := by
  induction l generalizing s with
  | nil => simp
  | cons b l ih =>
    rw [List.foldl_cons, ih, mem_queue_visit, mem_seen_visit, List.mem_cons]
    by_cases hab : a = b
    · subst hab
      tauto
    · tauto

theorem searched_start (next : κ → List κ) (start : List κ) :
    Searched next start ⟨OrderedSet.ofList start, start⟩ where
  start_seen := fun _ ha => OrderedSet.mem_ofList.mpr ha
  sound := fun a ha => ⟨a, OrderedSet.mem_ofList.mp ha, ReflTransGen.refl⟩
  queued := fun _ ha => OrderedSet.mem_ofList.mpr ha
  closed := fun _ ha hnot => absurd (OrderedSet.mem_ofList.mp ha) hnot

variable {seen : OrderedSet κ}

theorem Searched.again {start : List κ} {id : κ} {queue : List κ} (h : Searched next start ⟨seen, id :: queue⟩) :
    Searched next start ((next id).foldl Search.visit ⟨seen, queue⟩) where
  start_seen := by
    intro a ha
    rw [mem_seen_foldl_visit]
    exact .inr (h.start_seen a ha)
  sound := by
    intro a ha
    rw [mem_seen_foldl_visit] at ha
    rcases ha with ha | ha
    · obtain ⟨b, hb, hlead⟩ := h.sound id (h.queued id List.mem_cons_self)
      exact ⟨b, hb, hlead.tail ha⟩
    · exact h.sound a ha
  queued := by
    intro a ha
    rw [mem_queue_foldl_visit] at ha
    rw [mem_seen_foldl_visit]
    rcases ha with ha | ha
    · exact .inr (h.queued a (List.mem_cons_of_mem _ ha))
    · exact .inl ha.1
  closed := by
    intro a ha hnot b hb
    rw [mem_seen_foldl_visit] at ha
    rw [mem_queue_foldl_visit] at hnot
    rw [mem_seen_foldl_visit]
    by_cases hseen : a ∈ seen
    · by_cases hid : a = id
      · exact .inl (hid ▸ hb)
      · refine .inr (h.closed a hseen ?_ b hb)
        intro hmem
        exact hnot (Or.inl ((List.mem_cons.mp hmem).resolve_left hid))
    · exact absurd (Or.inr ⟨ha.resolve_right hseen, hseen⟩) hnot

/-- What is queued, and the nodes of `nodes` that have not been seen. -/
def Search.measure (nodes : List κ) (s : Search κ) : Nat :=
  s.queue.length + nodes.countP (fun a => decide (a ∉ s.seen))

theorem countP_add {nodes : List κ} {id : κ} (hid : id ∈ nodes) (hnew : id ∉ seen) :
    nodes.countP (fun a => decide (a ∉ seen.add id)) + 1
      ≤ nodes.countP (fun a => decide (a ∉ seen)) := by
  induction nodes with
  | nil => cases hid
  | cons a nodes ih =>
    have hle : nodes.countP (fun a => decide (a ∉ seen.add id))
        ≤ nodes.countP (fun a => decide (a ∉ seen)) := by
      refine List.countP_mono_left fun b _ hb => ?_
      rw [decide_eq_true_eq, OrderedSet.mem_add] at hb
      exact decide_eq_true fun h => hb (Or.inr h)
    rw [List.countP_cons, List.countP_cons]
    by_cases ha : a = id
    · have hout : decide (a ∉ seen.add id) = false := by simp [ha]
      have hin : decide (a ∉ seen) = true := by simp [ha, hnew]
      rw [hout, hin, if_pos rfl, if_neg Bool.false_ne_true]
      omega
    · have hrest := ih ((List.mem_cons.mp hid).resolve_left (Ne.symm ha))
      have heq : decide (a ∉ seen.add id) = decide (a ∉ seen) := by
        simp [ha]
      rw [heq]
      omega

theorem measure_visit_le {nodes : List κ} (s : Search κ) {id : κ} (hid : id ∈ nodes) :
    (s.visit id).measure nodes ≤ s.measure nodes := by
  unfold Search.visit
  split_ifs with h
  · exact le_refl _
  · have hcount := countP_add hid h
    unfold Search.measure
    dsimp only
    rw [List.length_append, List.length_singleton]
    omega

theorem measure_foldl_visit_le {nodes : List κ} (l : List κ) (s : Search κ)
    (hl : ∀ a ∈ l, a ∈ nodes) : (l.foldl Search.visit s).measure nodes ≤ s.measure nodes := by
  induction l generalizing s with
  | nil => exact le_refl _
  | cons a l ih =>
    rw [List.foldl_cons]
    exact (ih _ (fun b hb => hl b (List.mem_cons_of_mem _ hb))).trans
      (measure_visit_le s (hl a List.mem_cons_self))

theorem mem_closure {nodes start : List κ} {rounds : Nat} (hnext : ∀ a, ∀ b ∈ next a, b ∈ nodes)
    (hrounds : start.length + nodes.length < rounds) (a : κ) :
    a ∈ closure next rounds start ↔ ∃ b ∈ start, Leads next b a := by
  obtain ⟨seen, hrun, hseen⟩ := run_spec (closureBody next) (Search.measure nodes)
    (Searched next start) (fun seen => ∀ a, a ∈ seen ↔ ∃ b ∈ start, Leads next b a)
    (by
      intro s s' hs hbody
      obtain ⟨seen, _ | ⟨id, queue⟩⟩ := s
      · cases hbody
      · obtain rfl := Step.again.inj hbody
        refine ⟨hs.again, ?_⟩
        refine (measure_foldl_visit_le _ _ (hnext id)).trans_lt ?_
        unfold Search.measure
        dsimp only
        rw [List.length_cons]
        omega)
    (by
      intro s seen hs hbody
      obtain ⟨seen', _ | ⟨id, queue⟩⟩ := s
      · obtain rfl := Step.done.inj hbody
        intro a
        constructor
        · exact hs.sound a
        · rintro ⟨b, hb, hlead⟩
          induction hlead with
          | refl => exact hs.start_seen b hb
          | tail _ hstep ih => exact hs.closed _ ih List.not_mem_nil _ hstep
      · cases hbody)
    rounds ⟨OrderedSet.ofList start, start⟩ (searched_start next start)
    (by
      have hcount := List.countP_le_length (p := fun a => decide (a ∉ OrderedSet.ofList start))
        (l := nodes)
      unfold Search.measure
      dsimp only
      omega)
  unfold closure
  rw [hrun]
  exact hseen a

/-! ## Whether a node leads to another -/

/-- The nodes whose successors have been pushed, and the stack; its head is what `pop` returns. -/
structure Descent (κ : Type u) where
  visited : OrderedSet κ
  stack : List κ

def reachesBody (next : κ → List κ) (target : κ) (s : Descent κ) : Step (Descent κ) Bool :=
  match s.stack with
  | [] => .done false
  | current :: stack =>
    if current = target then .done true
    else if current ∈ s.visited then .again ⟨s.visited, stack⟩
    else .again ⟨s.visited.add current, (next current).reverse ++ stack⟩

/-- `start` leads to `target`. -/
def reaches (next : κ → List κ) (rounds : Nat) (start target : κ) : Bool :=
  (run (reachesBody next target) rounds ⟨∅, [start]⟩).getD false

/-- What is on the stack comes from `start`, and successors of the visited are visited or on it. -/
structure Descended (next : κ → List κ) (start target : κ) (s : Descent κ) : Prop where
  start_seen : start ∈ s.visited ∨ start ∈ s.stack
  sound : ∀ a ∈ s.stack, Leads next start a
  closed : ∀ a ∈ s.visited, ∀ b ∈ next a, b ∈ s.visited ∨ b ∈ s.stack
  target : target ∉ s.visited
  visited : ∀ a ∈ s.visited, Leads next start a

omit [DecidableEq κ] in
theorem descended_start (next : κ → List κ) (start target : κ) :
    Descended next start target ⟨∅, [start]⟩ where
  start_seen := Or.inr List.mem_cons_self
  sound := fun a ha => by rw [List.mem_singleton.mp ha]; exact ReflTransGen.refl
  closed := fun a ha => absurd ha (OrderedSet.not_mem_empty a)
  target := OrderedSet.not_mem_empty target
  visited := fun a ha => absurd ha (OrderedSet.not_mem_empty a)

variable {start target current : κ} {visited : OrderedSet κ} {stack : List κ}

omit [DecidableEq κ] in
theorem Descended.pass (h : Descended next start target ⟨visited, current :: stack⟩)
    (hvisited : current ∈ visited) : Descended next start target ⟨visited, stack⟩ where
  start_seen := by
    rcases h.start_seen with hstart | hstart
    · exact .inl hstart
    · rcases List.mem_cons.mp hstart with rfl | hstart
      · exact .inl hvisited
      · exact .inr hstart
  sound := fun a ha => h.sound a (List.mem_cons_of_mem _ ha)
  closed := by
    intro a ha b hb
    rcases h.closed a ha b hb with hb | hb
    · exact .inl hb
    · rcases List.mem_cons.mp hb with rfl | hb
      · exact .inl hvisited
      · exact .inr hb
  target := h.target
  visited := h.visited

theorem Descended.push (h : Descended next start target ⟨visited, current :: stack⟩)
    (hne : current ≠ target) :
    Descended next start target ⟨visited.add current, (next current).reverse ++ stack⟩ := by
  have hcurrent : Leads next start current := h.sound current List.mem_cons_self
  have hkept : ∀ a, a ∈ visited ∨ a ∈ current :: stack → a ∈ visited.add current ∨ a ∈ (next current).reverse ++ stack := by
    intro a ha
    rw [OrderedSet.mem_add, List.mem_append]
    rw [List.mem_cons] at ha
    tauto
  refine ⟨hkept _ h.start_seen, ?_, ?_, ?_, ?_⟩
  · intro a ha
    rcases List.mem_append.mp ha with ha | ha
    · exact hcurrent.tail (List.mem_reverse.mp ha)
    · exact h.sound a (List.mem_cons_of_mem _ ha)
  · intro a ha b hb
    rcases OrderedSet.mem_add.mp ha with rfl | ha
    · exact .inr (List.mem_append.mpr (Or.inl (List.mem_reverse.mpr hb)))
    · exact hkept b (h.closed a ha b hb)
  · rw [OrderedSet.mem_add]
    rintro (rfl | hmem)
    · exact hne rfl
    · exact h.target hmem
  · intro a ha
    rcases OrderedSet.mem_add.mp ha with rfl | ha
    · exact hcurrent
    · exact h.visited a ha

def pushes (next : κ → List κ) (nodes : List κ) (visited : OrderedSet κ) : Nat :=
  (nodes.map (fun a => if a ∈ visited then 0 else (next a).length)).sum

theorem pushes_add_le (nodes : List κ) (visited : OrderedSet κ) (id : κ) :
    pushes next nodes (visited.add id) ≤ pushes next nodes visited := by
  refine List.sum_le_sum fun a _ => ?_
  by_cases ha : a ∈ visited
  · rw [if_pos ha, if_pos (OrderedSet.mem_add.mpr (Or.inr ha))]
  · rw [if_neg ha]
    split_ifs
    · exact Nat.zero_le _
    · exact le_refl _

theorem pushes_add {nodes : List κ} {id : κ} (hid : id ∈ nodes) (hnew : id ∉ visited) :
    pushes next nodes (visited.add id) + (next id).length ≤ pushes next nodes visited := by
  induction nodes with
  | nil => cases hid
  | cons a nodes ih =>
    unfold pushes at ih ⊢
    rw [List.map_cons, List.map_cons, List.sum_cons, List.sum_cons]
    by_cases ha : a = id
    · have hle := @pushes_add_le _ _ next nodes visited id
      unfold pushes at hle
      rw [ha, if_pos (OrderedSet.mem_add.mpr (Or.inl rfl)), if_neg hnew]
      omega
    · have hrest := ih ((List.mem_cons.mp hid).resolve_left (Ne.symm ha))
      have hiff : a ∈ visited.add id ↔ a ∈ visited := by
        rw [OrderedSet.mem_add]
        tauto
      by_cases hvisited : a ∈ visited
      · rw [if_pos hvisited, if_pos (hiff.mpr hvisited)]
        omega
      · rw [if_neg hvisited, if_neg (fun h => hvisited (hiff.mp h))]
        omega

theorem reaches_iff {nodes : List κ} {rounds : Nat} (hnodes : ∀ a, next a ≠ [] → a ∈ nodes)
    (hrounds : (nodes.map (fun a => (next a).length)).sum + 1 < rounds) (start target : κ) :
    reaches next rounds start target = true ↔ Leads next start target := by
  obtain ⟨found, hrun, hfound⟩ := run_spec (reachesBody next target)
    (fun s => s.stack.length + pushes next nodes s.visited) (Descended next start target)
    (fun found => found = true ↔ Leads next start target)
    (by
      intro s s' hs hbody
      obtain ⟨visited, _ | ⟨current, stack⟩⟩ := s
      · cases hbody
      unfold reachesBody at hbody
      dsimp only at hbody
      split_ifs at hbody with htarget hvisited
      · obtain rfl := Step.again.inj hbody
        refine ⟨hs.pass hvisited, ?_⟩
        dsimp only
        rw [List.length_cons]
        omega
      · obtain rfl := Step.again.inj hbody
        refine ⟨hs.push htarget, ?_⟩
        dsimp only
        rw [List.length_cons, List.length_append, List.length_reverse]
        by_cases hempty : next current = []
        · have hle := @pushes_add_le _ _ next nodes visited current
          rw [hempty, List.length_nil]
          omega
        · have hadd := @pushes_add _ _ next _ _ _ (hnodes current hempty) hvisited
          omega)
    (by
      intro s found hs hbody
      obtain ⟨visited, _ | ⟨current, stack⟩⟩ := s
      · obtain rfl := Step.done.inj hbody
        have hall : ∀ a, Leads next start a → a ∈ visited := by
          intro a hlead
          induction hlead with
          | refl => exact hs.start_seen.resolve_right List.not_mem_nil
          | tail _ hstep ih => exact (hs.closed _ ih _ hstep).resolve_right List.not_mem_nil
        exact ⟨nofun, fun hlead => absurd (hall target hlead) hs.target⟩
      · unfold reachesBody at hbody
        dsimp only at hbody
        split_ifs at hbody with htarget
        obtain rfl := Step.done.inj hbody
        refine ⟨fun _ => ?_, fun _ => rfl⟩
        rw [← htarget]
        exact hs.sound current List.mem_cons_self)
    rounds ⟨∅, [start]⟩ (descended_start next start target)
    (by
      have hpushes : pushes next nodes ∅ = (nodes.map (fun a => (next a).length)).sum := by
        unfold pushes
        simp only [OrderedSet.not_mem_empty, if_false]
      rw [hpushes, List.length_singleton]
      omega)
  unfold reaches
  rw [hrun]
  exact hfound

/-! ## The nodes that a list leads to, queued as often as they are met -/

def floodBody (next : κ → List κ) (s : Search κ) : Step (Search κ) (OrderedSet κ) :=
  match s.queue with
  | [] => .done s.seen
  | current :: queue =>
    if current ∈ s.seen then .again ⟨s.seen, queue⟩
    else .again ⟨s.seen.add current, queue ++ next current⟩

/-- The nodes that `start` leads to, in the order in which their turn comes. -/
def flood (next : κ → List κ) (rounds : Nat) (start : List κ) : OrderedSet κ :=
  (run (floodBody next) rounds ⟨∅, start⟩).getD ∅

/-- What has been met comes from `start`, and what a visited node leads to has been met. -/
structure Flooded (next : κ → List κ) (start : List κ) (s : Search κ) : Prop where
  start_met : ∀ a ∈ start, a ∈ s.seen ∨ a ∈ s.queue
  sound : ∀ a, a ∈ s.seen ∨ a ∈ s.queue → ∃ b ∈ start, Leads next b a
  closed : ∀ a ∈ s.seen, ∀ b ∈ next a, b ∈ s.seen ∨ b ∈ s.queue

omit [DecidableEq κ] in
theorem Flooded.pass {start : List κ} {queue : List κ} (h : Flooded next start ⟨seen, current :: queue⟩)
    (hseen : current ∈ seen) :
    Flooded next start ⟨seen, queue⟩ := by
  have hkept : ∀ a, a ∈ seen ∨ a ∈ current :: queue ↔ a ∈ seen ∨ a ∈ queue := by
    intro a
    rw [List.mem_cons]
    refine ⟨?_, fun ha => ha.imp_right Or.inr⟩
    rintro (ha | rfl | ha)
    · exact .inl ha
    · exact .inl hseen
    · exact .inr ha
  exact ⟨fun a ha => (hkept a).mp (h.start_met a ha), fun a ha => h.sound a ((hkept a).mpr ha),
    fun a ha b hb => (hkept b).mp (h.closed a ha b hb)⟩

theorem Flooded.visit {start : List κ} {queue : List κ} (h : Flooded next start ⟨seen, current :: queue⟩) :
    Flooded next start ⟨seen.add current, queue ++ next current⟩ := by
  have hkept : ∀ a, a ∈ seen ∨ a ∈ current :: queue → a ∈ seen.add current ∨ a ∈ queue ++ next current := by
    intro a ha
    rw [OrderedSet.mem_add, List.mem_append]
    rw [List.mem_cons] at ha
    tauto
  have hcurrent := h.sound current (Or.inr List.mem_cons_self)
  refine ⟨fun a ha => hkept a (h.start_met a ha), ?_, ?_⟩
  · intro a ha
    rw [OrderedSet.mem_add, List.mem_append] at ha
    rcases ha with (rfl | ha) | ha | ha
    · exact hcurrent
    · exact h.sound a (Or.inl ha)
    · exact h.sound a (Or.inr (List.mem_cons_of_mem _ ha))
    · obtain ⟨b, hb, hlead⟩ := hcurrent
      exact ⟨b, hb, hlead.tail ha⟩
  · intro a ha b hb
    rcases OrderedSet.mem_add.mp ha with rfl | ha
    · exact .inr (List.mem_append_right _ hb)
    · exact hkept b (h.closed a ha b hb)

theorem mem_flood {nodes start : List κ} {rounds : Nat} (hnodes : ∀ a, next a ≠ [] → a ∈ nodes)
    (hrounds : start.length + (nodes.map (fun a => (next a).length)).sum < rounds) (a : κ) :
    a ∈ flood next rounds start ↔ ∃ b ∈ start, Leads next b a := by
  obtain ⟨seen, hrun, hseen⟩ := run_spec (floodBody next)
    (fun s => s.queue.length + pushes next nodes s.seen) (Flooded next start)
    (fun seen => ∀ a, a ∈ seen ↔ ∃ b ∈ start, Leads next b a)
    (by
      intro s s' hs hbody
      obtain ⟨seen, _ | ⟨current, queue⟩⟩ := s
      · cases hbody
      unfold floodBody at hbody
      dsimp only at hbody
      split_ifs at hbody with hvisited
      · obtain rfl := Step.again.inj hbody
        refine ⟨hs.pass hvisited, ?_⟩
        dsimp only
        rw [List.length_cons]
        omega
      · obtain rfl := Step.again.inj hbody
        refine ⟨hs.visit, ?_⟩
        dsimp only
        rw [List.length_cons, List.length_append]
        by_cases hempty : next current = []
        · have hle := @pushes_add_le _ _ next nodes seen current
          rw [hempty, List.length_nil]
          omega
        · have hadd := @pushes_add _ _ next _ _ _ (hnodes current hempty) hvisited
          omega)
    (by
      intro s seen hs hbody
      obtain ⟨seen', _ | ⟨current, queue⟩⟩ := s
      · obtain rfl := Step.done.inj hbody
        intro a
        refine ⟨fun ha => hs.sound a (Or.inl ha), ?_⟩
        rintro ⟨b, hb, hlead⟩
        induction hlead with
        | refl => exact (hs.start_met b hb).resolve_right List.not_mem_nil
        | tail _ hstep ih => exact (hs.closed _ ih _ hstep).resolve_right List.not_mem_nil
      · unfold floodBody at hbody
        dsimp only at hbody
        split_ifs at hbody)
    rounds ⟨∅, start⟩
    ⟨fun _ ha => Or.inr ha, fun a ha => ⟨a, ha.resolve_left (OrderedSet.not_mem_empty a), ReflTransGen.refl⟩,
      fun a ha => absurd ha (OrderedSet.not_mem_empty a)⟩
    (by
      have hpushes : pushes next nodes ∅ = (nodes.map (fun a => (next a).length)).sum := by
        unfold pushes
        simp only [OrderedSet.not_mem_empty, if_false]
      rw [hpushes]
      exact hrounds)
  unfold flood
  rw [hrun]
  exact hseen a

end Premise.Graph
