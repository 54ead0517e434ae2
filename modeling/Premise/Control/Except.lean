import Mathlib

/-!
# Computations that may fail

What a computation that returned has gone through.
-/

namespace Premise.Control

variable {ε α β : Type}

theorem ok_bind (a : α) (f : α → Except ε β) : (Except.ok a >>= f) = f a := rfl

theorem of_bind_ok {x : Except ε α} {f : α → Except ε β} {b : β} (h : x >>= f = .ok b) : ∃ a, x = .ok a ∧ f a = .ok b := by
  cases x with
  | error e => cases h
  | ok a => exact ⟨a, rfl, h⟩

theorem of_check_ok {c : Prop} [Decidable c] {e : ε} {rest : Unit → Except ε β} {b : β}
    (h : (if c then Except.error e >>= rest else rest ()) = .ok b) : ¬ c ∧ rest () = .ok b := by
  split_ifs at h with hc
  · cases h
  · exact ⟨hc, h⟩

theorem of_foldlM_ok {f : β → α → Except ε β} {l : List α} (Inv : List α → β → Prop)
    (hstep : ∀ done, ∀ a ∈ l, ∀ b b', Inv done b → f b a = .ok b' → Inv (done ++ [a]) b') {b b' : β}
    (hinit : Inv [] b) (h : l.foldlM f b = .ok b') : Inv l b' := by
  have key : ∀ (rest done : List α) (b : β), (∀ a ∈ rest, a ∈ l) → Inv done b →
      rest.foldlM f b = .ok b' → Inv (done ++ rest) b' := by
    intro rest
    induction rest with
    | nil =>
      intro done b _ hb hfold
      cases hfold
      rw [List.append_nil]
      exact hb
    | cons a rest ih =>
      intro done b hmem hb hfold
      rw [List.foldlM_cons] at hfold
      obtain ⟨b1, hfirst, hrest⟩ := of_bind_ok hfold
      have hnext := hstep done a (hmem a List.mem_cons_self) b b1 hb hfirst
      have hthen := ih (done ++ [a]) b1 (fun a' ha' => hmem a' (List.mem_cons_of_mem _ ha')) hnext hrest
      rw [List.append_assoc] at hthen
      exact hthen
  exact key l [] b (fun _ ha => ha) hinit h

theorem foldlM_returns {f : β → α → Except ε β} (h : ∀ b a, ∃ b', f b a = .ok b') (l : List α) (b : β) :
    ∃ b', l.foldlM f b = .ok b' := by
  induction l generalizing b with
  | nil => exact ⟨b, rfl⟩
  | cons a l ih =>
    obtain ⟨b1, hfirst⟩ := h b a
    rw [List.foldlM_cons, hfirst, ok_bind]
    exact ih b1

theorem mapM_of_ok {f : α → Except ε β} {g : α → β} {l : List α} (h : ∀ a ∈ l, f a = .ok (g a)) :
    l.mapM f = .ok (l.map g) := by
  induction l with
  | nil => rfl
  | cons a l ih =>
    obtain ⟨hfirst, hrest⟩ := List.forall_mem_cons.mp h
    rw [List.mapM_cons, hfirst, ok_bind, ih hrest]
    rfl

end Premise.Control
