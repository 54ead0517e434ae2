import Mathlib

/-!
# Transition systems and their runs

A system has initial states and labelled steps. An invariant of the steps holds in every state that
a run reaches; a system is restricted to the steps that meet a condition, or recorded with the log of
its run.
-/

namespace Premise.Control

universe u v

/-- A labelled transition system. -/
structure System (σ : Type u) (ι : Type v) where
  init : σ → Prop
  step : σ → ι → σ → Prop

namespace System

variable {σ : Type u} {ι : Type v} {M : System σ ι} {s s' : σ} {i : ι}

/-- The states of the runs from initial states. -/
inductive Reachable (M : System σ ι) : σ → Prop
  | init {s : σ} : M.init s → M.Reachable s
  | step {s s' : σ} {i : ι} : M.Reachable s → M.step s i s' → M.Reachable s'

theorem Reachable.invariant (Inv : σ → Prop) (hinit : ∀ s, M.init s → Inv s)
    (hstep : ∀ s i s', Inv s → M.step s i s' → Inv s') (h : M.Reachable s) : Inv s := by
  induction h with
  | init h => exact hinit _ h
  | step _ h ih => exact hstep _ _ _ ih h

/-- The system whose runs start in `s`. -/
def startingAt (M : System σ ι) (s : σ) : System σ ι where
  init := fun s' => s' = s
  step := M.step

def restrict (M : System σ ι) (P : σ → ι → σ → Prop) : System σ ι where
  init := M.init
  step := fun s i s' => M.step s i s' ∧ P s i s'

theorem Reachable.of_restrict {P : σ → ι → σ → Prop} (h : (M.restrict P).Reachable s) : M.Reachable s := by
  induction h with
  | init h => exact Reachable.init h
  | step _ h ih => exact Reachable.step ih h.1

/-- The system together with the log of its run: each step, with the state before it. -/
def recorded (M : System σ ι) : System (σ × List (σ × ι)) ι where
  init := fun p => M.init p.1 ∧ p.2 = []
  step := fun p i p' => M.step p.1 i p'.1 ∧ p'.2 = p.2 ++ [(p.1, i)]

theorem Reachable.of_recorded {p : σ × List (σ × ι)} (h : M.recorded.Reachable p) : M.Reachable p.1 := by
  induction h with
  | init h => exact Reachable.init h.1
  | step _ h ih => exact Reachable.step ih h.1

/-- A step of a log that grows by one step is the new one, or a step of the old log. -/
theorem split_log {log before after : List (σ × ι)} {e e' : σ × ι}
    (h : log ++ [e] = before ++ e' :: after) :
    (log = before ∧ e = e') ∨ ∃ rest, log = before ++ e' :: rest := by
  rcases List.eq_nil_or_concat after with rfl | ⟨rest, last, rfl⟩
  · obtain ⟨hlog, he⟩ := List.append_inj' h rfl
    exact .inl ⟨hlog, List.singleton_injective he⟩
  · refine .inr ⟨rest, ?_⟩
    rw [List.concat_eq_append, ← List.cons_append, ← List.append_assoc] at h
    exact (List.append_inj' h rfl).1

end System

end Premise.Control
