import Mathlib

/-!
# Lines

Lists that are cut at a separator, each line with its end.
-/

namespace Premise.Collections

variable {α : Type*}

def unlines (sep : α) (lines : List (List α)) : List α := lines.flatMap (fun line => line ++ [sep])

@[simp] theorem unlines_nil (sep : α) : unlines sep [] = [] := rfl

@[simp] theorem unlines_cons (sep : α) (line : List α) (lines : List (List α)) :
    unlines sep (line :: lines) = line ++ sep :: unlines sep lines := by
  simp [unlines]

@[simp] theorem unlines_append (sep : α) (lines lines' : List (List α)) :
    unlines sep (lines ++ lines') = unlines sep lines ++ unlines sep lines' :=
  List.flatMap_append

theorem unlines_eq_intercalate (sep : α) {lines : List (List α)} (h : lines ≠ []) :
    unlines sep lines = [sep].intercalate lines ++ [sep] := by
  induction lines with
  | nil => exact absurd rfl h
  | cons line lines ih =>
    cases lines with
    | nil => simp
    | cons line' lines =>
      rw [unlines_cons, ih (List.cons_ne_nil _ _), List.intercalate_cons_cons]
      simp

theorem unlines_splitOn [BEq α] [LawfulBEq α] {sep : α} {text : List α} (h : text.getLast? = some sep) :
    unlines sep (text.dropLast.splitOn sep) = text := by
  rw [unlines_eq_intercalate sep (List.splitOn_ne_nil sep _), List.intercalate_splitOn]
  exact List.dropLast_append_getLast? sep h

theorem line_unique {sep : α} {line line' rest rest' : List α} (h : sep ∉ line) (h' : sep ∉ line')
    (heq : line ++ sep :: rest = line' ++ sep :: rest') : line = line' ∧ rest = rest' := by
  induction line generalizing line' with
  | nil =>
    cases line' with
    | nil => exact ⟨rfl, (List.cons.inj heq).2⟩
    | cons a line' => exact absurd (List.cons.inj heq).1 (fun hsep => h' (hsep ▸ List.mem_cons_self))
  | cons a line ih =>
    cases line' with
    | nil => exact absurd (List.cons.inj heq).1 (fun hsep => h (hsep ▸ List.mem_cons_self))
    | cons a' line' =>
      obtain ⟨rfl, htail⟩ := List.cons.inj heq
      obtain ⟨rfl, hrest⟩ := ih (fun hm => h (List.mem_cons_of_mem _ hm))
        (fun hm => h' (List.mem_cons_of_mem _ hm)) htail
      exact ⟨rfl, hrest⟩

theorem unlines_injective {sep : α} {lines lines' : List (List α)} (h : ∀ line ∈ lines, sep ∉ line)
    (h' : ∀ line ∈ lines', sep ∉ line) (heq : unlines sep lines = unlines sep lines') : lines = lines' := by
  induction lines generalizing lines' with
  | nil =>
    cases lines' with
    | nil => rfl
    | cons line' lines' => simp at heq
  | cons line lines ih =>
    cases lines' with
    | nil => simp at heq
    | cons line' lines' =>
      rw [unlines_cons, unlines_cons] at heq
      have hline := h line List.mem_cons_self
      have hline' := h' line' List.mem_cons_self
      obtain ⟨hfirst, hrest⟩ := line_unique hline hline' heq
      rw [hfirst, ih (fun l hl => h l (List.mem_cons_of_mem _ hl)) (fun l hl => h' l (List.mem_cons_of_mem _ hl)) hrest]

end Premise.Collections
