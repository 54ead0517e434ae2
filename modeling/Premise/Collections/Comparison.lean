import Mathlib

/-!
# Comparison functions

Functions that compare two elements by the sign of a number, as `Array.prototype.sort` takes them, and the
stable sort by one.
-/

namespace Premise.Collections

variable {α κ : Type} [LinearOrder κ]

/-- The comparison orders the elements by their keys; greater keys are worse. -/
structure Compares (compare : α → α → Int) (key : α → κ) : Prop where
  nonpos : ∀ a b, compare a b ≤ 0 ↔ key a ≤ key b
  nonneg : ∀ a b, 0 ≤ compare a b ↔ key b ≤ key a

theorem Compares.pos {compare : α → α → Int} {key : α → κ} (h : Compares compare key) (a b : α) :
    0 < compare a b ↔ key b < key a := by
  rw [← not_le, h.nonpos, not_le]

/-- `first || second` on numbers. -/
def orElse (first second : Int) : Int := if first ≠ 0 then first else second

theorem Compares.orElse {κ' : Type} [LinearOrder κ'] {first second : α → α → Int} {key : α → κ} {key' : α → κ'}
    (h : Compares first key) (h' : Compares second key') :
    Compares (fun a b => Collections.orElse (first a b) (second a b)) (fun a => toLex (key a, key' a)) := by
  have hequal : ∀ a b, first a b = 0 ↔ key a = key b := by
    intro a b
    rw [le_antisymm_iff, le_antisymm_iff, h.nonpos, h.nonneg]
  constructor
  · intro a b
    rw [Prod.Lex.toLex_le_toLex', Collections.orElse]
    by_cases hfirst : first a b = 0
    · have hkey := (hequal a b).mp hfirst
      rw [if_neg (not_not_intro hfirst), h'.nonpos]
      simp [hkey]
    · have hkey := mt (hequal a b).mpr hfirst
      rw [if_pos hfirst, h.nonpos]
      simp [hkey]
  · intro a b
    rw [Prod.Lex.toLex_le_toLex', Collections.orElse]
    by_cases hfirst : first a b = 0
    · have hkey := (hequal a b).mp hfirst
      rw [if_neg (not_not_intro hfirst), h'.nonneg]
      simp [hkey]
    · have hkey : key b ≠ key a := fun heq => hfirst ((hequal a b).mpr heq.symm)
      rw [if_pos hfirst, h.nonneg]
      simp [hkey]

section Sorting

variable (compare : α → α → Int)

/-- `values.sort(compare)`, which is stable. -/
def sortBy (l : List α) : List α := l.insertionSort (fun left right => compare left right ≤ 0)

end Sorting

variable {l : List α} {p : α → Prop}

section Sorted

variable {compare : α → α → Int} {key : α → κ}

variable (compare) in
theorem sortBy_perm (l : List α) : (sortBy compare l).Perm l := List.perm_insertionSort _ l

theorem sortBy_sorted (hcompare : Compares compare key) (l : List α) :
    (sortBy compare l).Pairwise (fun a b => key a ≤ key b) := by
  have htrans : IsTrans α (fun a b => compare a b ≤ 0) :=
    ⟨fun a b c hab hbc => (hcompare.nonpos a c).mpr (((hcompare.nonpos a b).mp hab).trans ((hcompare.nonpos b c).mp hbc))⟩
  have htotal : Std.Total (fun a b => compare a b ≤ 0) :=
    ⟨fun a b => (le_total (key a) (key b)).imp (hcompare.nonpos a b).mpr (hcompare.nonpos b a).mpr⟩
  exact (List.pairwise_insertionSort _ l).imp fun {a b} h => (hcompare.nonpos a b).mp h

theorem sortBy_eq (hcompare : Compares compare key) {sorted : List α}
    (hkeys : ∀ a ∈ l, ∀ b ∈ l, key a = key b → a = b) (hperm : sorted.Perm l)
    (hsorted : sorted.Pairwise (fun a b => key a ≤ key b)) : sortBy compare l = sorted := by
  have hperm' := sortBy_perm compare l
  refine List.Perm.eq_of_pairwise ?_ (sortBy_sorted hcompare l) hsorted (hperm'.trans hperm.symm)
  intro a b ha hb hab hba
  exact hkeys a (hperm'.mem_iff.mp ha) b (hperm.mem_iff.mp hb) (le_antisymm hab hba)

theorem map_sortBy_perm {β : Type} (hcompare : Compares compare key) {f : α → β} {l' : List α}
    (hkeys : ∀ a ∈ l, ∀ b ∈ l, key a = key b → f a = f b) (hperm : l.Perm l') :
    (sortBy compare l).map f = (sortBy compare l').map f := by
  have hl : (sortBy compare l).Perm l := sortBy_perm compare l
  have hl' : (sortBy compare l').Perm l := (sortBy_perm compare l').trans hperm.symm
  have hsorted : ∀ l : List α, ((sortBy compare l).map (fun a => (key a, f a))).Pairwise (fun p q => p.1 ≤ q.1) :=
    fun l => List.pairwise_map.mpr (sortBy_sorted hcompare l)
  have hpairs : (sortBy compare l).map (fun a => (key a, f a)) = (sortBy compare l').map (fun a => (key a, f a)) := by
    refine List.Perm.eq_of_pairwise ?_ (hsorted l) (hsorted l') ((hl.trans hl'.symm).map _)
    intro p q hp hq hpq hqp
    obtain ⟨a, ha, rfl⟩ := List.mem_map.mp hp
    obtain ⟨b, hb, rfl⟩ := List.mem_map.mp hq
    have hkey : key a = key b := le_antisymm hpq hqp
    rw [hkey, hkeys a (hl.mem_iff.mp ha) b (hl'.mem_iff.mp hb) hkey]
  have hsecond := congrArg (List.map Prod.snd) hpairs
  rwa [List.map_map, List.map_map] at hsecond

/-- The first of the best elements that satisfy `p`. -/
def FirstBest (key : α → κ) (p : α → Prop) (l : List α) (best : α) : Prop :=
  ∃ before after, l = before ++ best :: after ∧ p best ∧ (∀ a ∈ before, p a → key best < key a)
    ∧ ∀ a ∈ after, p a → key best ≤ key a

theorem FirstBest.least {best : α} (h : FirstBest key p l best) {a : α} (ha : a ∈ l) (hp : p a) : key best ≤ key a := by
  obtain ⟨before, after, rfl, -, hbefore, hafter⟩ := h
  rcases List.mem_append.mp ha with ha | ha
  · exact (hbefore a ha hp).le
  · rcases List.mem_cons.mp ha with rfl | ha
    · exact le_rfl
    · exact hafter a ha hp

theorem FirstBest.mem {best : α} (h : FirstBest key p l best) : best ∈ l ∧ p best := by
  obtain ⟨before, after, rfl, hp, -⟩ := h
  exact ⟨List.mem_append_right _ List.mem_cons_self, hp⟩

theorem FirstBest.congr {q : α → Prop} {best : α} (hpq : ∀ a ∈ l, (p a ↔ q a)) (h : FirstBest key p l best) :
    FirstBest key q l best := by
  have hmem := h.mem.1
  obtain ⟨before, after, rfl, hp, hbefore, hafter⟩ := h
  refine ⟨before, after, rfl, (hpq _ hmem).mp hp, fun a ha hqa => ?_, fun a ha hqa => ?_⟩
  · exact hbefore a ha ((hpq a (List.mem_append_left _ ha)).mpr hqa)
  · exact hafter a ha ((hpq a (List.mem_append_right _ (List.mem_cons_of_mem _ ha))).mpr hqa)

theorem exists_firstBest {a : α} (ha : a ∈ l) (hp : p a) : ∃ best, FirstBest key p l best := by
  induction l generalizing a with
  | nil => exact absurd ha List.not_mem_nil
  | cons first l ih =>
    by_cases hothers : ∃ b ∈ l, p b
    · obtain ⟨b, hb, hpb⟩ := hothers
      obtain ⟨best, hbest⟩ := ih hb hpb
      by_cases hfirst : p first ∧ key first ≤ key best
      · refine ⟨first, [], l, rfl, hfirst.1, fun a ha => absurd ha List.not_mem_nil, fun a ha hpa => ?_⟩
        exact hfirst.2.trans (hbest.least ha hpa)
      · obtain ⟨before, after, rfl, hpbest, hbefore, hafter⟩ := hbest
        refine ⟨best, first :: before, after, rfl, hpbest, fun a ha hpa => ?_, hafter⟩
        rcases List.mem_cons.mp ha with rfl | ha
        · exact not_le.mp fun hle => hfirst ⟨hpa, hle⟩
        · exact hbefore a ha hpa
    · have hnone : ∀ b ∈ l, ¬ p b := fun b hb hpb => hothers ⟨b, hb, hpb⟩
      rcases List.mem_cons.mp ha with rfl | ha
      · exact ⟨a, [], l, rfl, hp, fun b hb => absurd hb List.not_mem_nil, fun b hb hpb => absurd hpb (hnone b hb)⟩
      · exact absurd hp (hnone a ha)

theorem head?_sortBy_of_firstBest (hcompare : Compares compare key) {p : α → Bool} {best : α}
    (h : FirstBest key (fun a => p a = true) l best) : (sortBy compare (l.filter p)).head? = some best := by
  obtain ⟨before, after, rfl, hp, hbefore, hafter⟩ := h
  induction before with
  | nil =>
    rw [List.nil_append, List.filter_cons_of_pos hp]
    unfold sortBy
    rw [List.insertionSort_cons]
    cases hsorted : List.insertionSort (fun left right => compare left right ≤ 0) (after.filter p) with
    | nil => rfl
    | cons a rest =>
      have hmem : a ∈ after.filter p := by
        rw [← (sortBy_perm compare (after.filter p)).mem_iff, sortBy, hsorted]
        exact List.mem_cons_self
      obtain ⟨ha, hpa⟩ := List.mem_filter.mp hmem
      rw [List.orderedInsert_cons, if_pos ((hcompare.nonpos best a).mpr (hafter a ha hpa))]
      rfl
  | cons first before ih =>
    have hrest := ih (fun a ha => hbefore a (List.mem_cons_of_mem _ ha))
    rw [List.cons_append, List.filter_cons]
    split_ifs with hpfirst
    · have hlt := hbefore first List.mem_cons_self hpfirst
      unfold sortBy at hrest ⊢
      rw [List.insertionSort_cons]
      cases hsorted : List.insertionSort (fun left right => compare left right ≤ 0)
          ((before ++ best :: after).filter p) with
      | nil =>
        rw [hsorted] at hrest
        cases hrest
      | cons a rest =>
        rw [hsorted] at hrest
        obtain rfl := Option.some.inj hrest
        rw [List.orderedInsert_cons, if_neg (fun hle => absurd ((hcompare.nonpos first a).mp hle) (not_le.mpr hlt))]
        rfl
    · exact hrest

theorem head?_sortBy_filter (hcompare : Compares compare key) (p : α → Bool) (l : List α) (best : α) :
    (sortBy compare (l.filter p)).head? = some best ↔ FirstBest key (fun a => p a = true) l best := by
  refine ⟨fun hhead => ?_, head?_sortBy_of_firstBest hcompare⟩
  have hmem : best ∈ l.filter p := (sortBy_perm compare _).mem_iff.mp (List.mem_of_mem_head? hhead)
  obtain ⟨hl, hp⟩ := List.mem_filter.mp hmem
  obtain ⟨best', hbest'⟩ : ∃ best', FirstBest key (fun a => p a = true) l best' := exists_firstBest hl hp
  have hhead' := head?_sortBy_of_firstBest hcompare hbest'
  rw [hhead] at hhead'
  rw [Option.some.inj hhead']
  exact hbest'

end Sorted

end Premise.Collections
