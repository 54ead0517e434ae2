import Mathlib

/-!
# Minimal elements of a set, maintained under insertion

For a transitive relation `r`, read "comes before", `IsFrontier r F S` says that `F` is an antichain
of elements of `S` that every element of `S` comes after or belongs to. Such an `F` is the set of the
minimal elements of `S`, and it is maintained under insertion by looking at `F` alone.
-/

namespace Premise.Graph

universe u

variable {α : Type u} {r : α → α → Prop} {F S : Set α}

/-- `F` is an antichain in `S` below which nothing of `S` lies. -/
structure IsFrontier (r : α → α → Prop) (F S : Set α) : Prop where
  /-- The frontier consists of elements of the set. -/
  subset : F ⊆ S
  /-- No element of the frontier comes before another. -/
  antichain : ∀ a ∈ F, ∀ b ∈ F, ¬ r a b
  /-- Every element of the set is in the frontier or comes after an element of it. -/
  dominates : ∀ x ∈ S, ∃ m ∈ F, m = x ∨ r m x

theorem IsFrontier.empty : IsFrontier r ∅ (∅ : Set α) :=
  ⟨subset_rfl, by simp, by simp⟩

theorem IsFrontier.mem_iff [IsTrans α r] (h : IsFrontier r F S) (x : α) : x ∈ F ↔ x ∈ S ∧ ∀ y ∈ S, ¬ r y x := by
  constructor
  · intro hx
    refine ⟨h.subset hx, fun y hy hyx => ?_⟩
    obtain ⟨m, hm, rfl | hmy⟩ := h.dominates y hy
    · exact h.antichain _ hm _ hx hyx
    · exact h.antichain _ hm _ hx (Trans.trans hmy hyx)
  · rintro ⟨hx, hmin⟩
    obtain ⟨m, hm, rfl | hmx⟩ := h.dominates x hx
    · exact hm
    · exact absurd hmx (hmin m (h.subset hm))

/-- An element that is in the frontier or comes after it leaves the frontier as it is. -/
theorem IsFrontier.insert_dominated (h : IsFrontier r F S) {x : α} (hx : ∃ e ∈ F, e = x ∨ r e x) :
    IsFrontier r F (insert x S) where
  subset := h.subset.trans (Set.subset_insert x S)
  antichain := h.antichain
  dominates := by
    intro y hy
    rcases Set.mem_insert_iff.mp hy with rfl | hy
    · exact hx
    · exact h.dominates y hy

theorem IsFrontier.insert_new [IsTrans α r] (h : IsFrontier r F S) {x : α} (hirr : ¬ r x x)
    (hx : ¬ ∃ e ∈ F, e = x ∨ r e x) : IsFrontier r (insert x {e ∈ F | ¬ r x e}) (insert x S) where
  subset := by
    intro y hy
    rcases Set.mem_insert_iff.mp hy with rfl | hy
    · exact Set.mem_insert _ _
    · exact Set.mem_insert_of_mem _ (h.subset hy.1)
  antichain := by
    intro a ha b hb hab
    rcases Set.mem_insert_iff.mp ha with rfl | ha
    · rcases Set.mem_insert_iff.mp hb with rfl | hb
      · exact hirr hab
      · exact hb.2 hab
    · rcases Set.mem_insert_iff.mp hb with rfl | hb
      · exact hx ⟨a, ha.1, Or.inr hab⟩
      · exact h.antichain a ha.1 b hb.1 hab
  dominates := by
    intro y hy
    rcases Set.mem_insert_iff.mp hy with rfl | hy
    · exact ⟨y, Set.mem_insert _ _, Or.inl rfl⟩
    · obtain ⟨m, hm, hmy⟩ := h.dominates y hy
      by_cases hxm : r x m
      · refine ⟨x, Set.mem_insert _ _, Or.inr ?_⟩
        rcases hmy with rfl | hmy
        · exact hxm
        · exact Trans.trans hxm hmy
      · exact ⟨m, Set.mem_insert_of_mem _ ⟨hm, hxm⟩, hmy⟩

end Premise.Graph
