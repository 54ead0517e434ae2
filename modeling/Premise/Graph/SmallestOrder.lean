import Premise.Graph.Topological

/-!
# The smallest dependency order

A dependency order lists every node once, after all that it depends on. Taking the first of the nodes that can come
next each time gives the order that is smallest in the lexicographic sense; the nodes that can come next are found
by counting the dependencies down that have not been listed.
-/

namespace Premise.Graph

open Collections Control

universe u

variable {κ : Type u}

section Orders

variable (r : κ → κ → Prop) (nodes : κ → Prop) (dep : κ → κ → Prop)

/-- Every node is listed once, after all that it depends on. -/
structure DependencyOrder (order : List κ) : Prop where
  nodup : order.Nodup
  mem : ∀ a, a ∈ order ↔ nodes a
  after : ∀ before a rest, order = before ++ a :: rest → ∀ d, dep a d → d ∈ before

/-- The lists are equal, or the first one has the smaller element where they differ first. -/
def LexLe (l l' : List κ) : Prop := l = l' ∨ List.Lex (fun a b => r a b ∧ a ≠ b) l l'

/-- The node can come next after `before`. -/
structure Ready (before : List κ) (a : κ) : Prop where
  node : nodes a
  new : a ∉ before
  after : ∀ d, dep a d → d ∈ before

/-- Each time, the first of the nodes that can come next is taken. -/
def Greedy (before : List κ) : List κ → Prop
  | [] => True
  | a :: rest => Ready nodes dep before a ∧ (∀ b, Ready nodes dep before b → r a b) ∧ Greedy (before ++ [a]) rest

variable {r nodes dep}

theorem greedy_concat {before l : List κ} {a : κ} : Greedy r nodes dep before (l ++ [a]) ↔
    Greedy r nodes dep before l ∧ Ready nodes dep (before ++ l) a ∧
      ∀ b, Ready nodes dep (before ++ l) b → r a b := by
  induction l generalizing before with
  | nil => simp [Greedy]
  | cons b l ih =>
    rw [List.cons_append, Greedy, Greedy, ih, List.append_assoc, List.singleton_append]
    tauto

theorem Greedy.ordered {before l : List κ} (h : Greedy r nodes dep before l) : l.Nodup ∧ (∀ a ∈ l, nodes a ∧ a ∉ before) ∧
      ∀ start a rest, l = start ++ a :: rest → ∀ d, dep a d → d ∈ before ++ start := by
  induction l generalizing before with
  | nil => exact ⟨List.nodup_nil, nofun, fun start a rest heq => absurd heq (by simp)⟩
  | cons b l ih =>
    obtain ⟨hready, -, hrest⟩ := h
    obtain ⟨hnodup, hmem, hafter⟩ := ih hrest
    refine ⟨List.nodup_cons.mpr ⟨fun hb => (hmem b hb).2 (by simp), hnodup⟩, ?_, ?_⟩
    · intro a ha
      rcases List.mem_cons.mp ha with rfl | ha
      · exact ⟨hready.node, hready.new⟩
      · exact ⟨(hmem a ha).1, fun hbefore => (hmem a ha).2 (List.mem_append_left _ hbefore)⟩
    · intro start a rest heq d hd
      cases start with
      | nil =>
        obtain ⟨rfl, -⟩ := List.cons.inj heq
        rw [List.append_nil]
        exact hready.after d hd
      | cons c start =>
        obtain ⟨rfl, htail⟩ := List.cons.inj heq
        have hmem := hafter start a rest htail d hd
        rwa [List.append_assoc] at hmem

theorem Greedy.dependencyOrder {order : List κ} (h : Greedy r nodes dep [] order) (hall : ∀ a, nodes a → a ∈ order) :
    DependencyOrder nodes dep order where
  nodup := h.ordered.1
  mem a := ⟨fun ha => (h.ordered.2.1 a ha).1, hall a⟩
  after := h.ordered.2.2

theorem Greedy.lexLe {before l l' : List κ} (h : Greedy r nodes dep before l)
    (h' : DependencyOrder nodes dep (before ++ l')) (hlength : l.length = l'.length) : LexLe r l l' := by
  induction l generalizing before l' with
  | nil =>
    rw [List.length_nil] at hlength
    exact .inl (List.length_eq_zero_iff.mp hlength.symm).symm
  | cons a l ih =>
    obtain _ | ⟨b, l'⟩ := l'
    · cases hlength
    obtain ⟨-, hleast, hrest⟩ := h
    -- The other order has to go on with a node that can come next, too.
    have hready : Ready nodes dep before b := by
      refine ⟨(h'.mem b).mp (by simp), fun hb => ?_, h'.after before b l' rfl⟩
      exact (List.nodup_append.mp h'.nodup).2.2 b hb b List.mem_cons_self rfl
    by_cases hab : a = b
    · subst hab
      rw [← List.singleton_append, ← List.append_assoc] at h'
      refine (ih hrest h' (Nat.succ.inj hlength)).imp (congrArg (a :: ·)) fun hlex => ?_
      exact List.Lex.cons hlex
    · exact .inr (List.Lex.rel ⟨hleast b hready, hab⟩)

theorem Greedy.smallest {order : List κ} (h : Greedy r nodes dep [] order) (hall : ∀ a, nodes a → a ∈ order) :
    ∀ other, DependencyOrder nodes dep other → LexLe r order other := by
  intro other hother
  have horder := h.dependencyOrder hall
  refine h.lexLe hother (List.Perm.length_eq ?_)
  exact (List.perm_ext_iff_of_nodup horder.nodup hother.nodup).mpr (fun a => (horder.mem a).trans (hother.mem a).symm)

end Orders

/-! ## Counting down -/

variable [DecidableEq κ]

/-- How many dependencies of each node have not been listed (`none` is not a number), what can come
next, and the list. -/
structure Countdown (κ : Type u) where
  degrees : OrderedMap κ (Option Int)
  queue : List κ
  result : List κ

def Countdown.release (c : Countdown κ) (dependent : κ) : Countdown κ :=
  let degree := (c.degrees.get? dependent).join.map (· - 1)
  { c with
      degrees := c.degrees.set dependent degree
      queue := if degree = some 0 then c.queue ++ [dependent] else c.queue }

def countdownStart (sort : List κ → List κ) (dependencies : κ → List κ) (nodes : List κ) : Countdown κ :=
  let degrees := nodes.foldl (fun degrees node => degrees.set node (some ((dependencies node).length : Int))) ∅
  ⟨degrees, sort ((degrees.entries.filter (fun p => p.2 = some 0)).map Prod.fst), []⟩

def countdownBody (sort : List κ → List κ) (dependents : κ → List κ) (c : Countdown κ) :
    Step (Countdown κ) (Countdown κ) :=
  match c.queue with
  | [] => .done c
  | node :: queue =>
    let c' := (dependents node).foldl Countdown.release { c with queue := queue, result := c.result ++ [node] }
    .again { c' with queue := sort c'.queue }

/-- The list of the nodes that could come next, and how many nodes there are; `none` when rounds run out. -/
def countdown (sort : List κ → List κ) (dependencies dependents : κ → List κ) (nodes : List κ) :
    Option (List κ × Nat) :=
  (run (countdownBody sort dependents) (nodes.length + 1) (countdownStart sort dependencies nodes)).map
    (fun c => (c.result, c.degrees.size))

section Countdown

variable {r : κ → κ → Prop} {sort : List κ → List κ} {dependencies dependents : κ → List κ} {ids : OrderedSet κ}
  {order : List κ} {id : κ}

theorem foldl_countdown_release (l : List κ) (hl : l.Nodup) (c : Countdown κ) :
    (∀ a, (l.foldl Countdown.release c).degrees.get? a =
      if a ∈ l then some ((c.degrees.get? a).join.map (· - 1)) else c.degrees.get? a) ∧
    (l.foldl Countdown.release c).queue = c.queue ++ l.filter (fun a => (c.degrees.get? a).join = some 1) ∧
    (l.foldl Countdown.release c).result = c.result := by
  induction l generalizing c with
  | nil => simp
  | cons b l ih =>
    obtain ⟨hb, hl⟩ := List.nodup_cons.mp hl
    obtain ⟨hdegrees, hqueue, hresult⟩ := ih hl (c.release b)
    have hother : ∀ a, a ≠ b → (c.release b).degrees.get? a = c.degrees.get? a :=
      fun a ha => OrderedMap.get?_set_of_ne _ _ ha
    refine ⟨?_, ?_, hresult⟩
    · intro a
      rw [List.foldl_cons, hdegrees]
      by_cases hab : a = b
      · rw [hab, if_neg hb, if_pos List.mem_cons_self]
        exact OrderedMap.get?_set_self _ _ _
      · rw [hother a hab]
        simp only [List.mem_cons, hab, false_or]
    · have hfilter : l.filter (fun a => ((c.release b).degrees.get? a).join = some 1)
          = l.filter (fun a => (c.degrees.get? a).join = some 1) := by
        refine List.filter_congr fun a ha => ?_
        rw [hother a (fun hab => hb (hab ▸ ha))]
      have hzero : (c.degrees.get? b).join.map (· - 1) = some 0 ↔ (c.degrees.get? b).join = some 1 := by
        rw [Option.map_eq_some_iff]
        constructor
        · rintro ⟨n, hn, hzero⟩
          rw [hn, show n = 1 by omega]
        · exact fun hone => ⟨1, hone, rfl⟩
      rw [List.foldl_cons, hqueue, hfilter, List.filter_cons]
      unfold Countdown.release
      dsimp only
      by_cases hone : (c.degrees.get? b).join = some 1
      · rw [if_pos (hzero.mpr hone), if_pos (by simpa using hone), List.append_assoc, List.singleton_append]
      · rw [if_neg (fun h => hone (hzero.mp h)), if_neg (by simpa using hone)]

/-- `order` has been listed: the degrees are what is missing, and the queue holds the nodes that can come next. -/
structure Counting (r : κ → κ → Prop) (dependencies : κ → List κ) (ids : OrderedSet κ) (order : List κ)
    (c : Countdown κ) : Prop where
  result : c.result = order
  degrees : ∀ a, c.degrees.get? a =
    if a ∈ ids then some (some (waiting dependencies ids order a : Int)) else none
  queue : ∀ a, a ∈ c.queue ↔ Ready (· ∈ ids) (fun a d => d ∈ dependencies a) order a
  nodup : c.queue.Nodup
  sorted : c.queue.Pairwise r
  greedy : Greedy r (· ∈ ids) (fun a d => d ∈ dependencies a) [] order

theorem waiting_nil (hknown : ∀ a, ∀ d ∈ dependencies a, d ∈ ids) (a : κ) :
    waiting dependencies ids [] a = (dependencies a).length := by
  unfold waiting
  rw [List.countP_eq_length]
  intro d hd
  simpa using hknown a d hd

theorem ready_iff (hknown : ∀ a, ∀ d ∈ dependencies a, d ∈ ids) (a : κ) :
    Ready (· ∈ ids) (fun a d => d ∈ dependencies a) order a ↔
      a ∈ ids ∧ a ∉ order ∧ waiting dependencies ids order a = 0 := by
  rw [waiting_eq_zero]
  constructor
  · exact fun h => ⟨h.node, h.new, fun d hd _ => h.after d hd⟩
  · exact fun ⟨hnode, hnew, hafter⟩ => ⟨hnode, hnew, fun d hd => hafter d hd (hknown a d hd)⟩

theorem get?_foldl_set {α : Type*} (f : κ → α) (l : List κ) (m : OrderedMap κ α) (a : κ) :
    (l.foldl (fun m n => m.set n (f n)) m).get? a = if a ∈ l then some (f a) else m.get? a := by
  induction l generalizing m with
  | nil => rfl
  | cons b l ih =>
    rw [List.foldl_cons, ih, OrderedMap.get?_set]
    by_cases hal : a ∈ l
    · rw [if_pos hal, if_pos (List.mem_cons_of_mem _ hal)]
    · by_cases hab : a = b
      · rw [if_neg hal, if_pos hab, hab, if_pos List.mem_cons_self]
      · rw [if_neg hal, if_neg hab, if_neg (fun h => (List.mem_cons.mp h).elim hab hal)]

section

variable (hperm : ∀ l, (sort l).Perm l) (hsort : ∀ l, (sort l).Pairwise r)
include hperm hsort

theorem counting_start
    (hknown : ∀ a, ∀ d ∈ dependencies a, d ∈ ids) :
    Counting r dependencies ids [] (countdownStart sort dependencies ids.elems) := by
  have hdegrees : ∀ a, (countdownStart sort dependencies ids.elems).degrees.get? a =
      if a ∈ ids then some (some (waiting dependencies ids [] a : Int)) else none := by
    intro a
    rw [waiting_nil hknown]
    exact get?_foldl_set (fun n => some ((dependencies n).length : Int)) ids.elems ∅ a
  refine ⟨rfl, hdegrees, ?_, ?_, hsort _, trivial⟩
  · intro a
    have hzero : ((a, some (0 : Int)) ∈ (countdownStart sort dependencies ids.elems).degrees.entries) ↔
        a ∈ ids ∧ waiting dependencies ids [] a = 0 := by
      rw [← OrderedMap.get?_eq_some_iff, hdegrees]
      split_ifs with hids
      · rw [Option.some.injEq, Option.some.injEq]
        simp [hids]
      · simp [hids]
    rw [ready_iff hknown]
    unfold countdownStart at hzero ⊢
    rw [(hperm _).mem_iff, List.mem_map]
    constructor
    · rintro ⟨⟨b, degree⟩, hb, rfl⟩
      obtain ⟨hentry, hdegree⟩ := List.mem_filter.mp hb
      obtain rfl : degree = some 0 := by simpa using hdegree
      obtain ⟨hids, hwaiting⟩ := hzero.mp hentry
      exact ⟨hids, List.not_mem_nil, hwaiting⟩
    · rintro ⟨hids, -, hwaiting⟩
      exact ⟨(a, some 0), List.mem_filter.mpr ⟨hzero.mpr ⟨hids, hwaiting⟩, by simp⟩, rfl⟩
  · unfold countdownStart
    refine (hperm _).nodup_iff.mpr (List.Nodup.sublist (List.filter_sublist.map Prod.fst) ?_)
    exact OrderedMap.keys_nodup _

theorem Counting.next {c : Countdown κ} {queue : List κ} (hrefl : ∀ a, r a a) (hknown : ∀ a, ∀ d ∈ dependencies a, d ∈ ids)
    (hnode : ∀ a, ∀ d ∈ dependencies a, a ∈ ids) (hmirror : ∀ n d, d ∈ dependencies n ↔ n ∈ dependents d)
    (hdependencies : ∀ n, (dependencies n).Nodup) (hdependents : ∀ d, (dependents d).Nodup)
    (h : Counting r dependencies ids order c) (hqueue : c.queue = id :: queue) {c' : Countdown κ}
    (hc' : c' = (dependents id).foldl Countdown.release { c with queue := queue, result := c.result ++ [id] }) :
    Counting r dependencies ids (order ++ [id]) { c' with queue := sort c'.queue } := by
  obtain ⟨hdegrees', hqueue', hresult'⟩ := foldl_countdown_release (dependents id) (hdependents id)
    { c with queue := queue, result := c.result ++ [id] }
  rw [← hc'] at hdegrees' hqueue' hresult'
  have hready : Ready (· ∈ ids) (fun a d => d ∈ dependencies a) order id :=
    (h.queue id).mp (hqueue ▸ List.mem_cons_self)
  have hnodup := h.nodup
  have hsorted := h.sorted
  rw [hqueue] at hnodup hsorted
  obtain ⟨hidqueue, hnodup⟩ := List.nodup_cons.mp hnodup
  have hwaiting : ∀ a, waiting dependencies ids order a = if a ∈ dependents id
      then waiting dependencies ids (order ++ [id]) a + 1
      else waiting dependencies ids (order ++ [id]) a := by
    intro a
    split_ifs with ha
    · exact (waiting_concat_of_mem (hdependencies a) ((hmirror a id).mpr ha) hready.node hready.new).symm
    · exact (waiting_concat_of_not_mem (fun hmem => ha ((hmirror a id).mp hmem))).symm
  have hself : id ∉ dependents id := fun hmem => hready.new (hready.after id ((hmirror id id).mpr hmem))
  have hunlisted : ∀ a ∈ dependents id, a ∉ order := by
    intro a ha hmem
    obtain ⟨before, rest, hsplit⟩ := List.append_of_mem hmem
    have hid := h.greedy.ordered.2.2 before a rest hsplit id ((hmirror a id).mpr ha)
    rw [List.nil_append] at hid
    exact hready.new (hsplit ▸ List.mem_append_left _ hid)
  -- The dependents that miss nothing else join the queue.
  have hfreed : ∀ a, a ∈ (dependents id).filter (fun a => (c.degrees.get? a).join = some 1) ↔
      a ∈ dependents id ∧ a ∈ ids ∧ waiting dependencies ids (order ++ [id]) a = 0 := by
    intro a
    rw [List.mem_filter, h.degrees]
    refine and_congr_right fun ha => ?_
    by_cases hids : a ∈ ids
    · rw [if_pos hids, hwaiting, if_pos ha]
      simp [hids]
    · simp [hids]
  refine ⟨?_, ?_, ?_, ?_, hsort _, ?_⟩
  · rw [hresult', h.result]
  · intro a
    rw [hdegrees', h.degrees]
    by_cases hids : a ∈ ids
    · by_cases hdep : a ∈ dependents id
      · rw [if_pos hdep, if_pos hids, if_pos hids, hwaiting, if_pos hdep]
        simp
      · rw [if_neg hdep, if_pos hids, if_pos hids, hwaiting, if_neg hdep]
    · by_cases hdep : a ∈ dependents id
      · exact absurd (hnode a id ((hmirror a id).mpr hdep)) hids
      · rw [if_neg hdep, if_neg hids, if_neg hids]
  · intro a
    rw [(hperm _).mem_iff, hqueue', List.mem_append, hfreed, ready_iff hknown]
    have hold := h.queue a
    rw [hqueue, List.mem_cons, ready_iff hknown, hwaiting] at hold
    by_cases ha : a = id
    · subst ha
      simp [hidqueue, hself]
    · by_cases hdep : a ∈ dependents id
      · have hlisted : a ∉ order := hunlisted a hdep
        rw [if_pos hdep] at hold
        simp only [ha, false_or, Nat.add_eq_zero_iff, one_ne_zero, and_false, iff_false] at hold
        simp [hold, hdep, ha, hlisted]
      · rw [if_neg hdep] at hold
        simp only [ha, false_or] at hold
        simp [hold, hdep, ha]
  · dsimp only
    rw [(hperm _).nodup_iff, hqueue', List.nodup_append]
    refine ⟨hnodup, (hdependents id).filter _, ?_⟩
    rintro a ha b hb rfl
    obtain ⟨hdep, -, -⟩ := (hfreed a).mp hb
    have hzero := ((ready_iff hknown a).mp ((h.queue a).mp (hqueue ▸ List.mem_cons_of_mem _ ha))).2.2
    rw [hwaiting, if_pos hdep] at hzero
    omega
  · refine greedy_concat.mpr ⟨h.greedy, hready, ?_⟩
    intro b hb
    have hmem := (h.queue b).mpr hb
    rw [hqueue] at hmem
    rcases List.mem_cons.mp hmem with rfl | hmem
    · exact hrefl _
    · exact (List.pairwise_cons.mp hsorted).1 b hmem

theorem countdown_spec (hrefl : ∀ a, r a a)
    (hknown : ∀ a, ∀ d ∈ dependencies a, d ∈ ids) (hnode : ∀ a, ∀ d ∈ dependencies a, a ∈ ids)
    (hmirror : ∀ n d, d ∈ dependencies n ↔ n ∈ dependents d)
    (hdependencies : ∀ n, (dependencies n).Nodup) (hdependents : ∀ d, (dependents d).Nodup)
    (hacyclic : WellFounded (fun d n => d ∈ dependencies n)) :
    ∃ order, countdown sort dependencies dependents ids.elems = some (order, order.length) ∧
      DependencyOrder (· ∈ ids) (fun a d => d ∈ dependencies a) order ∧
      ∀ other, DependencyOrder (· ∈ ids) (fun a d => d ∈ dependencies a) other → LexLe r order other := by
  obtain ⟨c, hrun, order, hcounting, hall⟩ := run_spec (countdownBody sort dependents)
    (fun c => ids.size - c.result.length)
    (fun c => ∃ order, Counting r dependencies ids order c)
    (fun c => ∃ order, Counting r dependencies ids order c ∧ ∀ a, a ∈ ids → a ∈ order)
    (by
      rintro c c' ⟨order, hc⟩ hbody
      unfold countdownBody at hbody
      cases hqueue : c.queue with
      | nil => rw [hqueue] at hbody; cases hbody
      | cons id queue =>
        rw [hqueue] at hbody
        obtain rfl := Step.again.inj hbody
        have hnext := hc.next hperm hsort hrefl hknown hnode hmirror hdependencies hdependents hqueue rfl
        refine ⟨⟨_, hnext⟩, ?_⟩
        have hordered := hnext.greedy.ordered
        have hlength : (order ++ [id]).length ≤ ids.size :=
          (hordered.1.subperm (fun a ha => (hordered.2.1 a ha).1)).length_le
        rw [hnext.result, hc.result]
        rw [List.length_append, List.length_singleton] at hlength ⊢
        omega)
    (by
      rintro c done ⟨order, hc⟩ hbody
      unfold countdownBody at hbody
      cases hqueue : c.queue with
      | cons id queue => rw [hqueue] at hbody; cases hbody
      | nil =>
        rw [hqueue] at hbody
        obtain rfl := Step.done.inj hbody
        refine ⟨order, hc, fun a => ?_⟩
        induction a using hacyclic.induction with
        | _ a ih =>
          intro ha
          by_contra hnew
          have hready := (hc.queue a).mpr ⟨ha, hnew, fun d hd => ih d hd (hknown a d hd)⟩
          rw [hqueue] at hready
          exact List.not_mem_nil hready)
    (ids.elems.length + 1) _ ⟨[], counting_start hperm hsort hknown⟩
    (Nat.lt_succ_of_le (Nat.sub_le _ _))
  have horder := hcounting.greedy.dependencyOrder hall
  refine ⟨order, ?_, horder, hcounting.greedy.smallest hall⟩
  have hkeys : c.degrees.keys.Perm order := by
    refine (List.perm_ext_iff_of_nodup c.degrees.keys_nodup horder.nodup).mpr fun a => ?_
    rw [OrderedMap.mem_keys, horder.mem, hcounting.degrees]
    split_ifs with hids <;> simp [hids]
  unfold countdown
  rw [hrun, Option.map_some, hcounting.result, ← OrderedMap.length_keys, hkeys.length_eq]

end

end Countdown

end Premise.Graph
