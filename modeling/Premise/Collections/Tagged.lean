import Mathlib

/-!
# Sequences that are sorted by a tag

A sequence of tagged entries whose tags never decrease is the concatenation of its entries below,
at and above a tag. A prefix of such a sequence grows by the next entry of a tag once the entries
of all lower tags are in it.
-/

namespace Premise.Collections

universe u

variable {α : Type u} {tag : α → Nat} {l p : List α} {t : Nat}

/-- The tags never decrease along `l`. -/
def TagSorted (tag : α → Nat) (l : List α) : Prop := l.Pairwise (fun a b => tag a ≤ tag b)

theorem TagSorted.split (h : TagSorted tag l) (t : Nat) :
    l = l.filter (fun a => decide (tag a < t)) ++ l.filter (fun a => decide (tag a = t))
      ++ l.filter (fun a => decide (t < tag a)) := by
  induction l with
  | nil => rfl
  | cons a l ih =>
    obtain ⟨ha, hl⟩ := List.pairwise_cons.mp h
    have hrest := ih hl
    rcases Nat.lt_trichotomy (tag a) t with hlt | heq | hgt
    · have hne : tag a ≠ t := by omega
      have hnot : ¬ t < tag a := by omega
      simp only [List.filter_cons, hlt, hne, hnot, decide_true, decide_false, if_true,
        Bool.false_eq_true, if_false, List.cons_append]
      rw [← hrest]
    · -- no lower tag is left
      have hnone : l.filter (fun b => decide (tag b < t)) = [] := by
        rw [List.filter_eq_nil_iff]
        intro b hb
        have := ha b hb
        simp only [decide_eq_true_eq]
        omega
      rw [hnone, List.nil_append] at hrest
      simp only [List.filter_cons, heq, hnone, decide_true, decide_false, if_true,
        Bool.false_eq_true, if_false, lt_irrefl, List.nil_append, List.cons_append]
      rw [← hrest]
    · have hnone : ∀ b ∈ l, t < tag b := fun b hb => lt_of_lt_of_le hgt (ha b hb)
      have hall : ∀ b ∈ a :: l, t < tag b := by
        intro b hb
        rcases List.mem_cons.mp hb with rfl | hb
        · exact hgt
        · exact hnone b hb
      have hlow : (a :: l).filter (fun b => decide (tag b < t)) = [] := by
        rw [List.filter_eq_nil_iff]
        intro b hb
        have := hall b hb
        simp only [decide_eq_true_eq]
        omega
      have hat : (a :: l).filter (fun b => decide (tag b = t)) = [] := by
        rw [List.filter_eq_nil_iff]
        intro b hb
        have := hall b hb
        simp only [decide_eq_true_eq]
        omega
      have hhigh : (a :: l).filter (fun b => decide (t < tag b)) = a :: l := by
        rw [List.filter_eq_self]
        intro b hb
        exact decide_eq_true (hall b hb)
      rw [hlow, hat, hhigh]
      rfl

theorem TagSorted.append_singleton (h : TagSorted tag l) {a : α} (hle : ∀ b ∈ l, tag b ≤ tag a) :
    TagSorted tag (l ++ [a]) := by
  refine List.pairwise_append.mpr ⟨h, List.pairwise_singleton _ a, fun b hb c hc => ?_⟩
  rw [List.mem_singleton.mp hc]
  exact hle b hb

theorem ne_of_filter_eq {rest : List α} {a b : α} (hb : b ∈ rest) (hfull : p.filter (fun c => decide (tag c = tag a))
      = (p ++ rest).filter (fun c => decide (tag c = tag a))) : tag b ≠ tag a := by
  rw [List.filter_append] at hfull
  have hnone : rest.filter (fun c => decide (tag c = tag a)) = [] := by
    have hlen := congrArg List.length hfull
    rw [List.length_append] at hlen
    exact List.length_eq_zero_iff.mp (by omega)
  rw [List.filter_eq_nil_iff] at hnone
  exact fun heq => hnone b hb (decide_eq_true heq)

theorem filter_lt_eq_of_prefix (hp : p <+: l) (hfull : ∀ a ∈ l, tag a < t →
      p.filter (fun b => decide (tag b = tag a)) = l.filter (fun b => decide (tag b = tag a))) :
    p.filter (fun a => decide (tag a < t)) = l.filter (fun a => decide (tag a < t)) := by
  obtain ⟨rest, rfl⟩ := hp
  rw [List.filter_append]
  have hrest : rest.filter (fun a => decide (tag a < t)) = [] := by
    rw [List.filter_eq_nil_iff]
    intro a ha hlt
    exact ne_of_filter_eq ha (hfull a (List.mem_append_right p ha) (of_decide_eq_true hlt)) rfl
  rw [hrest, List.append_nil]

theorem eq_of_prefix_of_filter_eq (hp : p <+: l) (hfull : ∀ a ∈ l,
      p.filter (fun b => decide (tag b = tag a)) = l.filter (fun b => decide (tag b = tag a))) :
    p = l := by
  obtain ⟨rest, rfl⟩ := hp
  cases rest with
  | nil => exact (List.append_nil p).symm
  | cons a rest =>
    have ha : a ∈ a :: rest := List.mem_cons_self
    exact absurd rfl (ne_of_filter_eq ha (hfull a (List.mem_append_right p ha)))

/-- The prefix grows by the next entry of the tag `t`. -/
theorem TagSorted.prefix_concat (h : TagSorted tag l) (hp : p <+: l) {x : α} (hfull : ∀ a ∈ l, tag a < t →
      p.filter (fun b => decide (tag b = tag a)) = l.filter (fun b => decide (tag b = tag a)))
    (hle : ∀ a ∈ p, tag a ≤ t)
    (hnext : p.filter (fun a => decide (tag a = t)) ++ [x]
      <+: l.filter (fun a => decide (tag a = t))) : p ++ [x] <+: l := by
  have hsorted : TagSorted tag p := List.Pairwise.sublist hp.sublist h
  have hhigh : p.filter (fun a => decide (t < tag a)) = [] := by
    rw [List.filter_eq_nil_iff]
    intro a ha hlt
    have := hle a ha
    have := of_decide_eq_true hlt
    omega
  have hpsplit := hsorted.split t
  rw [hhigh, List.append_nil, filter_lt_eq_of_prefix hp hfull] at hpsplit
  obtain ⟨rest, hrest⟩ := hnext
  refine ⟨rest ++ l.filter (fun a => decide (t < tag a)), ?_⟩
  have hlong : p ++ [x] ++ (rest ++ l.filter (fun a => decide (t < tag a)))
      = l.filter (fun a => decide (tag a < t))
        ++ (p.filter (fun a => decide (tag a = t)) ++ [x] ++ rest)
        ++ l.filter (fun a => decide (t < tag a)) := by
    nth_rewrite 1 [hpsplit]
    simp only [List.append_assoc]
  calc p ++ [x] ++ (rest ++ l.filter (fun a => decide (t < tag a)))
      = l.filter (fun a => decide (tag a < t))
        ++ (p.filter (fun a => decide (tag a = t)) ++ [x] ++ rest)
        ++ l.filter (fun a => decide (t < tag a)) := hlong
    _ = l := by
        rw [hrest, ← h.split t]

end Premise.Collections
