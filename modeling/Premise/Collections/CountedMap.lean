import Premise.Collections.OrderedMap
import Premise.Control.Loop

/-!
# Maps with a count for every owner

A map whose values have owners, and beside it the number of values of every owner, which the operations keep. The
oldest value of a kind is evicted as long as there are too many.
-/

namespace Premise.Collections

open Control

universe u v w

structure CountedMap (κ : Type u) (α : Type v) (τ : Type w) where
  entries : OrderedMap κ α := ∅
  counts : OrderedMap τ Nat := ∅
deriving DecidableEq

namespace CountedMap

variable {κ : Type u} {α : Type v} {τ : Type w} [DecidableEq κ] [DecidableEq τ] (owner : α → τ)

def count (m : CountedMap κ α τ) (t : τ) : Nat := (m.counts.get? t).getD 0

def remove (m : CountedMap κ α τ) (k : κ) : CountedMap κ α τ × Bool :=
  match m.entries.get? k with
  | none => (m, false)
  | some a =>
    (⟨m.entries.erase k, if m.count (owner a) ≤ 1 then m.counts.erase (owner a)
      else m.counts.set (owner a) (m.count (owner a) - 1)⟩, true)

def add (m : CountedMap κ α τ) (k : κ) (a : α) : CountedMap κ α τ :=
  ⟨m.entries.set k a, m.counts.set (owner a) (m.count (owner a) + 1)⟩

/-- The oldest value that satisfies `p` is removed; whether there was one. -/
def evictOldest (p : α → Bool) (m : CountedMap κ α τ) : CountedMap κ α τ × Bool :=
  match m.entries.entries.find? (fun e => p e.2) with
  | none => (m, false)
  | some e => m.remove owner e.1

/-- The oldest values that satisfy `p` are removed while there are too many; `none` when that does
not end. -/
def evictWhile (p : α → Bool) (exceeds : CountedMap κ α τ → Bool) (m : CountedMap κ α τ) :
    Option (CountedMap κ α τ × Nat) :=
  run (fun s => if exceeds s.1 then
      let evicted := evictOldest owner p s.1
      .again (evicted.1, s.2 + evicted.2.toNat)
    else .done s) (m.entries.size + 1) (m, 0)

/-! ## Counts -/

def Tallied (m : CountedMap κ α τ) : Prop :=
  ∀ t, m.count t = m.entries.countWhere (fun a => decide (owner a = t))

variable {owner} {m : CountedMap κ α τ} {k : κ} {a : α} {p : α → Bool} {exceeds : CountedMap κ α τ → Bool}

omit [DecidableEq κ] in
theorem tallied_empty : Tallied owner ({} : CountedMap κ α τ) := fun _ => rfl

theorem remove_of_none (h : m.entries.get? k = none) : m.remove owner k = (m, false) := by
  unfold remove
  rw [h]

theorem remove_of_some (h : m.entries.get? k = some a) : (m.remove owner k).1.entries = m.entries.erase k := by
  unfold remove
  rw [h]

theorem remove_snd_of_some (h : m.entries.get? k = some a) : (m.remove owner k).2 = true := by
  unfold remove
  rw [h]

theorem get?_remove (m : CountedMap κ α τ) (k k' : κ) :
    (m.remove owner k).1.entries.get? k' = if k' = k then none else m.entries.get? k' := by
  cases h : m.entries.get? k with
  | none =>
    rw [remove_of_none h]
    split_ifs with hk
    · rw [hk, h]
    · rfl
  | some a => rw [remove_of_some h, OrderedMap.get?_erase]

theorem count_remove (htallied : Tallied owner m) (h : m.entries.get? k = some a) (t : τ) :
    (m.remove owner k).1.count t + (if owner a = t then 1 else 0) = m.count t := by
  have hpositive : 0 < m.count (owner a) := by
    rw [htallied (owner a)]
    exact m.entries.countWhere_pos _ h (decide_eq_true rfl)
  unfold remove
  rw [h]
  unfold count at hpositive ⊢
  dsimp only
  by_cases ht : owner a = t
  · subst ht
    rw [if_pos rfl]
    split_ifs with hone
    · rw [OrderedMap.get?_erase, if_pos rfl, Option.getD_none]
      omega
    · rw [OrderedMap.get?_set, if_pos rfl, Option.getD_some]
      omega
  · rw [if_neg ht, Nat.add_zero]
    split_ifs
    · rw [OrderedMap.get?_erase_of_ne _ (Ne.symm ht)]
    · rw [OrderedMap.get?_set_of_ne _ _ (Ne.symm ht)]

theorem Tallied.remove (htallied : Tallied owner m) (k : κ) : Tallied owner (m.remove owner k).1 := by
  cases h : m.entries.get? k with
  | none =>
    rw [remove_of_none h]
    exact htallied
  | some a =>
    intro t
    have hcount := count_remove htallied h t
    have hvalues := m.entries.countWhere_erase (fun b => decide (owner b = t)) k
    rw [h, Option.any_some] at hvalues
    rw [remove_of_some h]
    rw [htallied t] at hcount
    simp only [decide_eq_true_eq] at hvalues
    omega

theorem count_add (m : CountedMap κ α τ) (k : κ) (a : α) (t : τ) :
    (m.add owner k a).count t = m.count t + (if owner a = t then 1 else 0) := by
  unfold add count
  rw [OrderedMap.get?_set]
  by_cases ht : owner a = t
  · rw [if_pos ht, if_pos ht.symm, ht]
    rfl
  · rw [if_neg ht, if_neg (Ne.symm ht), Nat.add_zero]

theorem Tallied.add (htallied : Tallied owner m) (h : m.entries.get? k = none) : Tallied owner (m.add owner k a) := by
  intro t
  have hvalues := m.entries.countWhere_set (fun b => decide (owner b = t)) k a
  rw [h] at hvalues
  rw [count_add, htallied t]
  simp only [decide_eq_true_eq, Option.any_none, Bool.false_eq_true, if_false, Nat.add_zero] at hvalues
  exact hvalues.symm

theorem evictOldest_of_some {e : κ × α} (h : m.entries.entries.find? (fun e => p e.2) = some e) :
    evictOldest owner p m = ((m.remove owner e.1).1, true) := by
  have hget := m.entries.get?_eq_some_iff.mpr (List.mem_of_find?_eq_some h)
  unfold evictOldest
  rw [h]
  exact Prod.ext rfl (remove_snd_of_some hget)

theorem evictWhile_of_not (h : exceeds m = false) : evictWhile owner p exceeds m = some (m, 0) := by
  unfold evictWhile run
  rw [h]
  rfl

theorem evictWhile_once {e : κ × α} (hover : exceeds m = true)
    (hfind : m.entries.entries.find? (fun e => p e.2) = some e) (hnext : exceeds (m.remove owner e.1).1 = false) :
    evictWhile owner p exceeds m = some ((m.remove owner e.1).1, 1) := by
  have hsize : 0 < m.entries.size := List.length_pos_of_mem (List.mem_of_find?_eq_some hfind)
  obtain ⟨n, hn⟩ := Nat.exists_eq_succ_of_ne_zero hsize.ne'
  unfold evictWhile
  rw [hn]
  unfold run
  simp only [hover, if_true, evictOldest_of_some hfind]
  unfold run
  simp only [hnext, Bool.false_eq_true, if_false]
  rfl

end CountedMap

end Premise.Collections
