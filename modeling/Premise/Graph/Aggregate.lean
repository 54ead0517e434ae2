import Mathlib

/-!
# Aggregation along dependencies

Every node has a value of its own, and is answered with the maximum of its value and of the answers for
its dependencies. On an acyclic graph the recursion has exactly one answer for every node; an assignment
that is consistent everywhere gives it.
-/

namespace Premise.Graph

universe u v

variable {κ : Type u} {α : Type v} [LinearOrder α]

def maxOf (a : α) (l : List α) : α := l.foldl max a

theorem maxOf_le_iff {a b : α} {l : List α} : maxOf a l ≤ b ↔ a ≤ b ∧ ∀ x ∈ l, x ≤ b := by
  unfold maxOf
  induction l generalizing a with
  | nil => simp
  | cons c l ih =>
    rw [List.foldl_cons, ih, max_le_iff, List.forall_mem_cons]
    tauto

theorem le_maxOf (a : α) (l : List α) : a ≤ maxOf a l := (maxOf_le_iff.mp (le_refl _)).1

theorem le_maxOf_of_mem (a : α) {l : List α} {x : α} (h : x ∈ l) : x ≤ maxOf a l :=
  (maxOf_le_iff.mp (le_refl _)).2 x h

theorem maxOf_congr {a : α} {l l' : List α} (h : ∀ x, x ∈ l ↔ x ∈ l') : maxOf a l = maxOf a l' := by
  refine eq_of_forall_ge_iff fun b => ?_
  rw [maxOf_le_iff, maxOf_le_iff]
  exact and_congr_right fun _ => forall_congr' (fun x => imp_congr_left (h x))

/-- The recursion answers `a` for a node. -/
inductive Aggregate (own : κ → α) (dependsOn : κ → List κ) : κ → α → Prop
  | intro {n : κ} (answer : κ → α) :
      (∀ d ∈ dependsOn n, Aggregate own dependsOn d (answer d)) →
      Aggregate own dependsOn n (maxOf (own n) ((dependsOn n).map answer))

variable {own : κ → α} {dependsOn : κ → List κ}

theorem Aggregate.unique {n : κ} {a b : α} (ha : Aggregate own dependsOn n a)
    (hb : Aggregate own dependsOn n b) : a = b := by
  induction ha generalizing b with
  | @intro n answer _ ih =>
    cases hb with
    | intro answer' h' =>
      rw [List.map_congr_left (fun d hd => ih d hd (h' d hd))]

theorem aggregate_of_consistent {nodes : κ → Prop} {status : κ → α}
    (hacyclic : WellFounded (fun d n => d ∈ dependsOn n))
    (hclosed : ∀ n, nodes n → ∀ d ∈ dependsOn n, nodes d)
    (hstatus : ∀ n, nodes n → status n = maxOf (own n) ((dependsOn n).map status)) {n : κ}
    (hn : nodes n) : Aggregate own dependsOn n (status n) := by
  induction n using hacyclic.induction with
  | _ n ih =>
    rw [hstatus n hn]
    exact Aggregate.intro status fun d hd => ih d hd (hclosed n hn d hd)

theorem Aggregate.le_iff {n : κ} {a b : α} (h : Aggregate own dependsOn n a) :
    a ≤ b ↔ ∀ c, Relation.ReflTransGen (fun n d => d ∈ dependsOn n) n c → own c ≤ b := by
  induction h with
  | @intro n answer _ ih =>
    rw [maxOf_le_iff, List.forall_mem_map]
    constructor
    · rintro ⟨hown, hdeps⟩ c hreach
      rcases hreach.cases_head with rfl | ⟨d, hd, hreach⟩
      · exact hown
      · exact (ih d hd).mp (hdeps d hd) c hreach
    · intro hall
      refine ⟨hall n Relation.ReflTransGen.refl, fun d hd => (ih d hd).mpr (fun c hreach => ?_)⟩
      exact hall c (Relation.ReflTransGen.head hd hreach)

end Premise.Graph
