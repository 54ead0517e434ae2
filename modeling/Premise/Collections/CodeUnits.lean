import Mathlib

/-!
# Strings ordered by UTF-16 code units

`Array.prototype.sort` without a comparison function, and `<` on strings, compare UTF-16 code units,
which is not the order of code points: a supplementary character sorts below `U+E000`.
-/

namespace Premise.Collections

def charUnits (c : Char) : List Nat :=
  if c.toNat < 0x10000 then [c.toNat]
  else [0xD800 + (c.toNat - 0x10000) / 0x400, 0xDC00 + (c.toNat - 0x10000) % 0x400]

def codeUnits (s : String) : List Nat := s.toList.flatMap charUnits

/-- `a` sorts before `b`, or is equal to it. -/
def UnitsLe (a b : String) : Prop := codeUnits a ≤ codeUnits b

theorem toNat_not_surrogate (c : Char) : c.toNat < 0xD800 ∨ 0xDFFF < c.toNat := by
  rcases c.valid with h | h
  · exact .inl h
  · exact .inr h.1

theorem charUnits_append_inj {c d : Char} {l l' : List Nat} (h : charUnits c ++ l = charUnits d ++ l') :
    c = d ∧ l = l' := by
  have hc := toNat_not_surrogate c
  have hd := toNat_not_surrogate d
  have hc' : c.toNat < 0x110000 := by
    rcases c.valid with h | h
    · exact Nat.lt_trans h (by decide)
    · exact h.2
  have hd' : d.toNat < 0x110000 := by
    rcases d.valid with h | h
    · exact Nat.lt_trans h (by decide)
    · exact h.2
  unfold charUnits at h
  split_ifs at h with hcsmall hdsmall hdsmall
  · simp only [List.cons_append, List.nil_append, List.cons.injEq] at h
    exact ⟨Char.toNat_inj.mp h.1, h.2⟩
  · simp only [List.cons_append, List.nil_append, List.cons.injEq] at h
    omega
  · simp only [List.cons_append, List.nil_append, List.cons.injEq] at h
    omega
  · simp only [List.cons_append, List.nil_append, List.cons.injEq] at h
    exact ⟨Char.toNat_inj.mp (by omega), h.2.2⟩

theorem charUnits_ne_nil (c : Char) : charUnits c ≠ [] := by
  unfold charUnits
  split_ifs
  · exact List.cons_ne_nil _ _
  · exact List.cons_ne_nil _ _

theorem codeUnits_injective {a b : String} (h : codeUnits a = codeUnits b) : a = b := by
  have key : ∀ l l' : List Char, l.flatMap charUnits = l'.flatMap charUnits → l = l' := by
    intro l
    induction l with
    | nil =>
      intro l' h
      cases l' with
      | nil => rfl
      | cons d l' => exact absurd h.symm (by simp [charUnits_ne_nil])
    | cons c l ih =>
      intro l' h
      cases l' with
      | nil => exact absurd h (by simp [charUnits_ne_nil])
      | cons d l' =>
        rw [List.flatMap_cons, List.flatMap_cons] at h
        obtain ⟨rfl, hrest⟩ := charUnits_append_inj h
        rw [ih l' hrest]
  exact String.toList_injective (key _ _ h)

instance : DecidableRel UnitsLe := fun a b => inferInstanceAs (Decidable (codeUnits a ≤ codeUnits b))

instance : IsTrans String UnitsLe := ⟨fun _ _ _ h1 h2 => le_trans (α := List Nat) h1 h2⟩

instance : Std.Total UnitsLe := ⟨fun a b => le_total (codeUnits a) (codeUnits b)⟩

instance : Std.Antisymm UnitsLe := ⟨fun _ _ h h' => codeUnits_injective (le_antisymm (α := List Nat) h h')⟩

/-- `values.sort()` on strings. -/
def sortStrings (l : List String) : List String := l.insertionSort UnitsLe

theorem sortStrings_perm (l : List String) : (sortStrings l).Perm l := List.perm_insertionSort _ l

@[simp] theorem mem_sortStrings {l : List String} {a : String} : a ∈ sortStrings l ↔ a ∈ l :=
  (sortStrings_perm l).mem_iff

theorem sortStrings_sorted (l : List String) : (sortStrings l).Pairwise UnitsLe :=
  List.pairwise_insertionSort _ l

theorem sortStrings_nodup {l : List String} (h : l.Nodup) : (sortStrings l).Nodup :=
  (sortStrings_perm l).nodup_iff.mpr h

theorem sortStrings_eq {l l' : List String} (hl : l.Nodup) (hl' : l'.Nodup) (h : ∀ a, a ∈ l ↔ a ∈ l') :
    sortStrings l = sortStrings l' := by
  have hperm : l.Perm l' := (List.perm_ext_iff_of_nodup hl hl').mpr h
  refine List.Perm.eq_of_pairwise ?_ (sortStrings_sorted l) (sortStrings_sorted l')
    ((sortStrings_perm l).trans (hperm.trans (sortStrings_perm l').symm))
  exact fun a b _ _ hab hba => Std.Antisymm.antisymm (r := UnitsLe) a b hab hba

/-- A supplementary character sorts before U+E000. -/
example : sortStrings ["\uE000", "𝄞"] = ["𝄞", "\uE000"] := by decide

end Premise.Collections
