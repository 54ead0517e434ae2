import Mathlib

/-!
# Commands

A command acts on a state, and returns or throws. What it has done before it threw stays done.

A guarantee is a relation of states that every command of some kind keeps: a command made of parts that keep
a guarantee keeps it.
-/

namespace Premise.Control

/-- From a state to the state that is left, and what is returned or thrown. -/
def Command (σ ε α : Type) : Type := σ → σ × Except ε α

namespace Command

variable {σ τ ε α β : Type}

instance : Monad (Command σ ε) where
  pure a := fun s => (s, .ok a)
  bind c f := fun s =>
    match c s with
    | (s', .ok a) => f a s'
    | (s', .error e) => (s', .error e)

def throw (e : ε) : Command σ ε α := fun s => (s, .error e)

def read (f : σ → α) : Command σ ε α := fun s => (s, .ok (f s))

def update (f : σ → σ) : Command σ ε Unit := fun s => (f s, .ok ())

def lift (x : Except ε α) : Command σ ε α := fun s => (s, x)

/-- `if (wrong) throw e`. -/
def rejectIf (wrong : Prop) [Decidable wrong] (e : ε) : Command σ ε Unit :=
  if wrong then throw e else pure ()

/-- `try { c } catch (error) { h; throw error }`. -/
def onError (c : Command σ ε α) (h : Command σ ε Unit) : Command σ ε α := fun s =>
  match c s with
  | (s', .error e) => ((h s').1, .error e)
  | r => r

def zoom (get : σ → τ) (set : τ → σ → σ) (c : Command τ ε α) : Command σ ε α := fun s =>
  (set (c (get s)).1 s, (c (get s)).2)

def mapError {ε' : Type} (f : ε → ε') (c : Command σ ε α) : Command σ ε' α := fun s =>
  ((c s).1, (c s).2.mapError f)

/-- `for (const a of l) c(a)`. -/
def forEach (c : α → Command σ ε Unit) : List α → Command σ ε Unit
  | [] => pure ()
  | a :: l => do
    c a
    forEach c l

/-- `l.map(c)`. -/
def mapEach (c : α → Command σ ε β) : List α → Command σ ε (List β)
  | [] => pure []
  | a :: l => do
    let b ← c a
    let rest ← mapEach c l
    return b :: rest

/-! ## What a command does -/

section Runs

variable {c : Command σ ε α} {f : α → Command σ ε β} {s s' : σ}

@[simp] theorem pure_run (a : α) (s : σ) : (pure a : Command σ ε α) s = (s, .ok a) := rfl

@[simp] theorem throw_run (e : ε) (s : σ) : (throw e : Command σ ε α) s = (s, .error e) := rfl

@[simp] theorem read_run (g : σ → α) (s : σ) : (read g : Command σ ε α) s = (s, .ok (g s)) := rfl

@[simp] theorem update_run (g : σ → σ) (s : σ) : (update g : Command σ ε Unit) s = (g s, .ok ()) := rfl

@[simp] theorem lift_run (x : Except ε α) (s : σ) : (lift x : Command σ ε α) s = (s, x) := rfl

theorem bind_run_ok {a : α} (h : c s = (s', .ok a)) : (c >>= f) s = f a s' := by
  show (match c s with | (s', .ok a) => f a s' | (s', .error e) => (s', .error e)) = f a s'
  rw [h]

theorem bind_run_error {e : ε} (h : c s = (s', .error e)) : (c >>= f) s = (s', .error e) := by
  show (match c s with | (s', .ok a) => f a s' | (s', .error e) => (s', .error e)) = (s', .error e)
  rw [h]

@[simp] theorem read_bind (g : σ → α) (s : σ) : ((read g : Command σ ε α) >>= f) s = f (g s) s := rfl

@[simp] theorem pure_bind_run (a : α) (s : σ) : ((pure a : Command σ ε α) >>= f) s = f a s := rfl

@[simp] theorem update_bind {k : Unit → Command σ ε β} (g : σ → σ) (s : σ) :
    ((update g : Command σ ε Unit) >>= k) s = k () (g s) := rfl

@[simp] theorem throw_bind (e : ε) (s : σ) :
    ((throw e : Command σ ε α) >>= f) s = (s, .error e) := rfl

theorem lift_bind_ok {x : Except ε α} {a : α} (h : x = .ok a) (s : σ) : ((lift x : Command σ ε α) >>= f) s = f a s := by
  subst h
  rfl

theorem lift_bind_error {x : Except ε α} {e : ε} (h : x = .error e) (s : σ) :
    ((lift x : Command σ ε α) >>= f) s = (s, .error e) := by
  subst h
  rfl

theorem of_bind_ok {b : β} (h : (c >>= f) s = (s', .ok b)) : ∃ s1 a, c s = (s1, .ok a) ∧ f a s1 = (s', .ok b) := by
  rcases hc : c s with ⟨s1, a | a⟩
  · rw [bind_run_error hc] at h
    cases h
  · rw [bind_run_ok hc] at h
    exact ⟨s1, a, rfl, h⟩

theorem bind_cases (c : Command σ ε α) (f : α → Command σ ε β) (s : σ) :
    (∃ e, (c s).2 = .error e ∧ (c >>= f) s = ((c s).1, .error e)) ∨
    ∃ a, (c s).2 = .ok a ∧ (c >>= f) s = f a (c s).1 := by
  rcases hc : c s with ⟨s1, e | a⟩
  · exact .inl ⟨e, rfl, bind_run_error hc⟩
  · exact .inr ⟨a, rfl, bind_run_ok hc⟩

theorem of_bind_snd_ok {b : β} (h : ((c >>= f) s).2 = .ok b) : ∃ a, (c s).2 = .ok a ∧ (f a (c s).1).2 = .ok b := by
  rcases bind_cases c f s with ⟨e, -, hrun⟩ | ⟨a, hok, hrun⟩
  · rw [hrun] at h
    cases h
  · rw [hrun] at h
    exact ⟨a, hok, h⟩

theorem of_lift_snd_ok {x : Except ε α} {a : α} (h : ((lift x : Command σ ε α) s).2 = .ok a) : x = .ok a := h

theorem of_zoom_snd_ok {get : σ → τ} {set : τ → σ → σ} {c : Command τ ε α} {a : α}
    (h : ((c.zoom get set) s).2 = .ok a) : (c (get s)).2 = .ok a := h

theorem of_mapError_snd_ok {ε' : Type} {f' : ε → ε'} {a : α} (h : ((c.mapError f') s).2 = .ok a) : (c s).2 = .ok a := by
  revert h
  show (Except.mapError f' (c s).2) = .ok a → _
  cases (c s).2 with
  | error e => exact fun h => nomatch h
  | ok a' => exact fun h => congrArg _ (Except.ok.inj h)

theorem of_rejectIf_snd_ok {wrong : Prop} [Decidable wrong] {e : ε} {u : Unit}
    (h : (rejectIf wrong e s).2 = .ok u) : ¬ wrong := by
  intro hwrong
  rw [rejectIf, if_pos hwrong] at h
  cases h

theorem rejectIf_neg {wrong : Prop} [Decidable wrong] (h : ¬ wrong) (e : ε) :
    (rejectIf wrong e : Command σ ε Unit) = pure () := if_neg h

theorem rejectIf_pos {wrong : Prop} [Decidable wrong] (h : wrong) (e : ε) :
    (rejectIf wrong e : Command σ ε Unit) = throw e := if_pos h

theorem of_rejectIf_ok {wrong : Prop} [Decidable wrong] {e : ε} {u : Unit}
    (h : (rejectIf wrong e : Command σ ε Unit) s = (s', .ok u)) : ¬ wrong ∧ s' = s := by
  unfold rejectIf at h
  split_ifs at h with hwrong
  · cases h
  · exact ⟨hwrong, (Prod.mk.inj h).1.symm⟩

theorem of_mapEach_nil_ok {c : α → Command σ ε β} {l : List β} (h : mapEach c [] s = (s', .ok l)) : s' = s ∧ l = [] :=
  ⟨(Prod.mk.inj h).1.symm, (Except.ok.inj (Prod.mk.inj h).2).symm⟩

/-- A loop that returns has returned for its first element, and then for the others. -/
theorem of_mapEach_cons_ok {c : α → Command σ ε β} {a : α} {l : List α} {bs : List β}
    (h : mapEach c (a :: l) s = (s', .ok bs)) :
    ∃ s1 b rest, c a s = (s1, .ok b) ∧ mapEach c l s1 = (s', .ok rest) ∧ bs = b :: rest := by
  obtain ⟨s1, b, hfirst, h⟩ := of_bind_ok h
  obtain ⟨s2, rest, hrest, h⟩ := of_bind_ok h
  obtain rfl := (Prod.mk.inj h).1
  exact ⟨s1, b, rest, hfirst, hrest, (Except.ok.inj (Prod.mk.inj h).2).symm⟩

end Runs

end Command

/-- A relation from the state before a command to the state after it. -/
structure Guarantee (σ : Type) where
  holds : σ → σ → Prop
  refl : ∀ s, holds s s
  trans : ∀ s s' s'', holds s s' → holds s' s'' → holds s s''

namespace Guarantee

variable {σ τ : Type}

def same (f : σ → τ) : Guarantee σ where
  holds s s' := f s' = f s
  refl _ := rfl
  trans _ _ _ h h' := h'.trans h

end Guarantee

namespace Command

variable {σ τ ε α β : Type} {G : Guarantee σ}

/-- The command keeps a guarantee from every state, also when it throws. -/
def Meets (c : Command σ ε α) (G : Guarantee σ) : Prop := ∀ s, G.holds s (c s).1

theorem holds_bind {c : Command σ ε α} {f : α → Command σ ε β} {s : σ} (hc : G.holds s (c s).1)
    (hf : ∀ a, (c s).2 = .ok a → G.holds (c s).1 (f a (c s).1).1) : G.holds s ((c >>= f) s).1 := by
  rcases bind_cases c f s with ⟨e, -, hrun⟩ | ⟨a, hok, hrun⟩
  · rw [hrun]
    exact hc
  · rw [hrun]
    exact G.trans _ _ _ hc (hf a hok)

namespace Meets

theorem mono {G' : Guarantee σ} {c : Command σ ε α} (hc : c.Meets G)
    (h : ∀ s s', G.holds s s' → G'.holds s s') : c.Meets G' := fun s => h _ _ (hc s)

theorem pure (a : α) : (Pure.pure a : Command σ ε α).Meets G := fun s => G.refl s

theorem throw (e : ε) : (Command.throw e : Command σ ε α).Meets G := fun s => G.refl s

theorem read (f : σ → α) : (Command.read f : Command σ ε α).Meets G := fun s => G.refl s

theorem lift (x : Except ε α) : (Command.lift x : Command σ ε α).Meets G := fun s => G.refl s

theorem rejectIf (wrong : Prop) [Decidable wrong] (e : ε) : (Command.rejectIf wrong e : Command σ ε Unit).Meets G := by
  unfold Command.rejectIf
  split_ifs
  · exact Meets.throw e
  · exact Meets.pure ()

theorem update {f : σ → σ} (h : ∀ s, G.holds s (f s)) : (Command.update f : Command σ ε Unit).Meets G := h

theorem bind_ok {c : Command σ ε α} {f : α → Command σ ε β} (hc : c.Meets G)
    (hf : ∀ s a, (c s).2 = .ok a → G.holds (c s).1 (f a (c s).1).1) : (c >>= f).Meets G :=
  fun s => holds_bind (hc s) (hf s)

theorem bind {c : Command σ ε α} {f : α → Command σ ε β} (hc : c.Meets G) (hf : ∀ a, (f a).Meets G) :
    (c >>= f).Meets G := hc.bind_ok (fun _ a _ => hf a _)

theorem ite {p : Prop} [Decidable p] {c c' : Command σ ε α} (hc : c.Meets G) (hc' : c'.Meets G) :
    (if p then c else c').Meets G := by
  split_ifs
  · exact hc
  · exact hc'

theorem onError {c : Command σ ε α} {h : Command σ ε Unit} (hc : c.Meets G) (hh : h.Meets G) : (c.onError h).Meets G := by
  intro s
  have hstep := hc s
  unfold Command.onError
  rcases hrun : c s with ⟨s', e | a⟩
  · rw [hrun] at hstep
    exact G.trans _ _ _ hstep (hh s')
  · rw [hrun] at hstep
    exact hstep

theorem forEach {c : α → Command σ ε Unit} {l : List α} (hc : ∀ a ∈ l, (c a).Meets G) : (Command.forEach c l).Meets G := by
  induction l with
  | nil => exact Meets.pure ()
  | cons a l ih =>
    exact (hc a List.mem_cons_self).bind fun _ => ih (fun b hb => hc b (List.mem_cons_of_mem a hb))

theorem zoom {get : σ → τ} {set : τ → σ → σ} {c : Command τ ε α} {G' : Guarantee τ} (hc : c.Meets G')
    (hset : ∀ s t, G'.holds (get s) t → G.holds s (set t s)) : (c.zoom get set).Meets G :=
  fun s => hset s _ (hc (get s))

end Meets

end Command

end Premise.Control
