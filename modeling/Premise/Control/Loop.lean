import Mathlib

/-!
# Loops that run until their body says so

A `while` loop as the iteration of its body, which either goes on from a new state or stops with a
result. The iteration is cut off after a number of rounds that the caller supplies; `run_spec` is the
rule by which a caller shows that the number suffices and what the result satisfies.
-/

namespace Premise.Control

universe u v

/-- What one round of a loop does. -/
inductive Step (σ : Type u) (α : Type v) where
  /-- Go on from a new state. -/
  | again (s : σ)
  /-- Leave the loop. -/
  | done (a : α)

variable {σ : Type u} {α : Type v}

/-- Iterate `body` for at most `n` rounds; `none` when none of them leaves the loop. -/
def run (body : σ → Step σ α) : Nat → σ → Option α
  | 0, _ => none
  | n + 1, s =>
    match body s with
    | .again s' => run body n s'
    | .done a => some a

/-- A loop whose body keeps `Inv` and decreases `measure` ends with a result that satisfies `Post`.
-/
theorem run_spec (body : σ → Step σ α) (measure : σ → Nat) (Inv : σ → Prop) (Post : α → Prop)
    (hagain : ∀ s s', Inv s → body s = .again s' → Inv s' ∧ measure s' < measure s)
    (hdone : ∀ s a, Inv s → body s = .done a → Post a) (n : Nat) (s : σ) (hs : Inv s)
    (hn : measure s < n) : ∃ a, run body n s = some a ∧ Post a := by
  induction n generalizing s with
  | zero => omega
  | succ n ih =>
    cases hb : body s with
    | again s' =>
      obtain ⟨hs', hlt⟩ := hagain s s' hs hb
      obtain ⟨a, ha, hp⟩ := ih s' hs' (by omega)
      exact ⟨a, by rw [run, hb]; exact ha, hp⟩
    | done a => exact ⟨a, by rw [run, hb], hdone s a hs hb⟩

theorem run_some_spec (body : σ → Step σ α) (Inv : σ → Prop) (Post : α → Prop)
    (hagain : ∀ s s', Inv s → body s = .again s' → Inv s')
    (hdone : ∀ s a, Inv s → body s = .done a → Post a) (n : Nat) (s : σ) (hs : Inv s) {a : α}
    (h : run body n s = some a) : Post a := by
  induction n generalizing s with
  | zero => simp [run] at h
  | succ n ih =>
    cases hb : body s with
    | again s' =>
      rw [run, hb] at h
      exact ih s' (hagain s s' hs hb) h
    | done b =>
      rw [run, hb] at h
      cases h
      exact hdone s _ hs hb

end Premise.Control
