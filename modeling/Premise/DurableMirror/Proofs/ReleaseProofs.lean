import Premise.DurableMirror.EventLoop

/-!
# Proofs: releasing and starting a task
-/

namespace Premise.DurableMirror

open Collections Control Js

namespace DurableMirrorStore

variable {s s' s'' : DurableMirrorStore} {t : Nat} {error : Option JsError}

theorem modify_self (s : DurableMirrorStore) (t : Nat) (f : Task → Task) :
    (s.modify t f).task t = f (s.task t) := Function.update_self t _ s.task

theorem modify_ne (s : DurableMirrorStore) {t x : Nat} (f : Task → Task) (h : x ≠ t) :
    (s.modify t f).task x = s.task x := Function.update_of_ne h _ s.task

/-! ## The loop over the dependents -/

/-- What the loop of `settle` over the dependents `l` of `t` does. -/
structure Releases (t : Nat) (l : List Nat) (s s' : DurableMirrorStore) : Prop where
  frame : s' = { s with
    task := s'.task
    ready := s'.ready }
  same : ∀ x, (s'.task x).action = (s.task x).action ∧ (s'.task x).started = (s.task x).started ∧
    (s'.task x).settled = (s.task x).settled ∧ (s'.task x).phase = (s.task x).phase
  dependencies : ∀ x d, d ∈ (s'.task x).dependencies ↔
    d ∈ (s.task x).dependencies ∧ ¬ (d = t ∧ x ∈ l)
  dependents : ∀ d x, x ∈ (s'.task d).dependents ↔ x ∈ (s.task d).dependents ∧ ¬ (d = t ∧ x ∈ l)
  ready : ∃ new, s'.ready = s.ready ++ new ∧ new.Sublist l ∧ ∀ x ∈ l, x ∈ new ↔
    (s.task x).settled = false ∧ ∀ d ∈ (s.task x).dependencies, d = t

theorem Releases.refl (t : Nat) (s : DurableMirrorStore) : Releases t [] s s where
  frame := rfl
  same := fun _ => ⟨rfl, rfl, rfl, rfl⟩
  dependencies := fun x d => by simp
  dependents := fun d x => by simp
  ready := ⟨[], by simp, List.Sublist.refl [], by simp⟩

theorem Releases.trans {l l' : List Nat} (h : Releases t l s s') (h' : Releases t l' s' s'') :
    Releases t (l ++ l') s s'' where
  frame := by
    rw [h'.frame, h.frame]
  same := by
    intro x
    obtain ⟨h1, h2, h3, h4⟩ := h.same x
    obtain ⟨h1', h2', h3', h4'⟩ := h'.same x
    exact ⟨h1'.trans h1, h2'.trans h2, h3'.trans h3, h4'.trans h4⟩
  dependencies := by
    intro x d
    rw [h'.dependencies, h.dependencies, List.mem_append]
    tauto
  dependents := by
    intro d x
    rw [h'.dependents, h.dependents, List.mem_append]
    tauto
  ready := by
    obtain ⟨new, hnew, hsub, hmem⟩ := h.ready
    obtain ⟨new', hnew', hsub', hmem'⟩ := h'.ready
    refine ⟨new ++ new', by rw [hnew', hnew, List.append_assoc], hsub.append hsub', ?_⟩
    intro x hx
    have hlast : x ∈ l' → (x ∈ new' ↔ (s.task x).settled = false ∧ ∀ d ∈ (s.task x).dependencies, d = t) := by
      intro hx'
      rw [hmem' x hx', (h.same x).2.2.1]
      refine and_congr_right fun _ => forall_congr' fun d => ?_
      rw [h.dependencies]
      tauto
    rw [List.mem_append]
    by_cases hx1 : x ∈ l
    · rw [hmem x hx1]
      by_cases hx2 : x ∈ l'
      · rw [hlast hx2, or_self]
      · have : x ∉ new' := fun h => hx2 (hsub'.subset h)
        tauto
    · have hx2 : x ∈ l' := (List.mem_append.mp hx).resolve_left hx1
      have : x ∉ new := fun h => hx1 (hsub.subset h)
      rw [← hlast hx2]
      tauto

theorem releaseDependent_spec (t : Nat) (s : DurableMirrorStore) (dependent : Nat) :
    Releases t [dependent] s (releaseDependent t s dependent) := by
  generalize hs1 : s.modify t (fun task => { task with
    dependents := task.dependents.erase dependent }) = s1
  generalize hs2 : s1.modify dependent (fun task => { task with
    dependencies := task.dependencies.erase t }) = s2
  have h1 : ∀ x, s1.task x = { s.task x with
      dependents := if x = t then (s.task x).dependents.erase dependent
        else (s.task x).dependents } := by
    intro x
    rw [← hs1]
    by_cases hx : x = t
    · rw [if_pos hx, hx, modify_self]
    · rw [if_neg hx, modify_ne _ _ hx]
  have h2 : ∀ x, s2.task x = { s1.task x with
      dependencies := if x = dependent then (s1.task x).dependencies.erase t
        else (s1.task x).dependencies } := by
    intro x
    rw [← hs2]
    by_cases hx : x = dependent
    · rw [if_pos hx, hx, modify_self]
    · rw [if_neg hx, modify_ne _ _ hx]
  have hframe : s2 = { s with task := s2.task } := by
    rw [← hs2, ← hs1]
    rfl
  have hdeps : ∀ x d, d ∈ (s2.task x).dependencies ↔ d ∈ (s.task x).dependencies ∧ ¬ (d = t ∧ x ∈ [dependent]) := by
    intro x d
    rw [h2, h1, List.mem_singleton]
    dsimp only
    split_ifs with hx
    · rw [OrderedSet.mem_erase]
      tauto
    · tauto
  have hdependents : ∀ d x, x ∈ (s2.task d).dependents ↔ x ∈ (s.task d).dependents ∧ ¬ (d = t ∧ x ∈ [dependent]) := by
    intro d x
    rw [h2, h1, List.mem_singleton]
    dsimp only
    split_ifs with hd
    · rw [OrderedSet.mem_erase]
      tauto
    · tauto
  have hsame : ∀ x, (s2.task x).action = (s.task x).action ∧
      (s2.task x).started = (s.task x).started ∧ (s2.task x).settled = (s.task x).settled ∧
      (s2.task x).phase = (s.task x).phase := by
    intro x
    rw [h2, h1]
    exact ⟨rfl, rfl, rfl, rfl⟩
  have hempty : (s2.task dependent).dependencies.size = 0 ↔ ∀ d ∈ (s.task dependent).dependencies, d = t := by
    rw [OrderedSet.size_eq_zero]
    refine forall_congr' fun d => ?_
    rw [hdeps, List.mem_singleton]
    tauto
  have heq : releaseDependent t s dependent =
      if (s2.task dependent).dependencies.size = 0 ∧ (s2.task dependent).settled = false then
        { s2 with ready := s2.ready ++ [dependent] }
      else s2 := by
    rw [← hs2, ← hs1]
    rfl
  have hready : s2.ready = s.ready := by rw [hframe]
  rw [heq]
  by_cases hpush : (s2.task dependent).dependencies.size = 0 ∧ (s2.task dependent).settled = false
  · rw [if_pos hpush]
    rw [hempty, (hsame dependent).2.2.1] at hpush
    refine ⟨by rw [hframe], hsame, hdeps, hdependents, [dependent], by rw [hready], List.Sublist.refl _, ?_⟩
    intro x hx
    rw [List.mem_singleton] at hx
    subst hx
    exact ⟨fun _ => ⟨hpush.2, hpush.1⟩, fun _ => List.mem_singleton_self x⟩
  · rw [if_neg hpush]
    rw [hempty, (hsame dependent).2.2.1] at hpush
    refine ⟨hframe.trans (by rw [hready]), hsame, hdeps, hdependents, [], by simp [hready], List.nil_sublist _, ?_⟩
    intro x hx
    rw [List.mem_singleton] at hx
    subst hx
    exact ⟨fun h => absurd h List.not_mem_nil, fun h => absurd ⟨h.2, h.1⟩ hpush⟩

theorem releaseDependents_spec (t : Nat) (l : List Nat) (s : DurableMirrorStore) :
    Releases t l s (l.foldl (releaseDependent t) s) := by
  induction l generalizing s with
  | nil => exact Releases.refl t s
  | cons a l ih => exact (releaseDependent_spec t s a).trans (ih (releaseDependent t s a))

theorem forgetDependent_spec (t : Nat) (l : List Nat) (s : DurableMirrorStore) :
    ∃ task', l.foldl (fun s dependency => s.modify dependency
        (fun task => { task with dependents := task.dependents.erase t })) s
        = { s with task := task' } ∧
      ∀ x, ∃ dependents, task' x = { s.task x with dependents := dependents } ∧
        ∀ y, y ∈ dependents ↔ y ∈ (s.task x).dependents ∧ ¬ (y = t ∧ x ∈ l) := by
  induction l generalizing s with
  | nil => exact ⟨s.task, rfl, fun x => ⟨(s.task x).dependents, rfl, fun y => by simp⟩⟩
  | cons a l ih =>
    generalize hs1 : s.modify a (fun task => { task with dependents := task.dependents.erase t }) = s1
    obtain ⟨task', heq, htask⟩ := ih s1
    refine ⟨task', ?_, fun x => ?_⟩
    · rw [List.foldl_cons, hs1, heq, ← hs1]
      rfl
    · obtain ⟨dependents, hx, hmem⟩ := htask x
      have hx1 : s1.task x = { s.task x with
          dependents := if x = a then (s.task x).dependents.erase t
            else (s.task x).dependents } := by
        rw [← hs1]
        by_cases hxa : x = a
        · rw [if_pos hxa, hxa, modify_self]
        · rw [if_neg hxa, modify_ne _ _ hxa]
      refine ⟨dependents, by rw [hx, hx1], fun y => ?_⟩
      rw [hmem, hx1, List.mem_cons]
      split_ifs with hxa
      · rw [OrderedSet.mem_erase]
        tauto
      · tauto

/-! ## `settle` up to its call of `pump` -/

/-- What the release of the unsettled task `t` does. -/
structure Released (t : Nat) (s s' : DurableMirrorStore) : Prop where
  frame : s' = { s with
    task := s'.task
    ready := s'.ready
    tasks := s.tasks.erase t
    activeWrites := if (s.task t).started then s.activeWrites - 1 else s.activeWrites
    pendingWrites := s.pendingWrites - 1
    settledPuts := s'.settledPuts }
  action : ∀ x, (s'.task x).action = (s.task x).action
  started : ∀ x, (s'.task x).started = (s.task x).started
  settled : ∀ x, (s'.task x).settled = if x = t then true else (s.task x).settled
  phase : ∀ x, x ≠ t → (s'.task x).phase = (s.task x).phase
  dependencies : ∀ x d, d ∈ (s'.task x).dependencies ↔
    d ∈ (s.task x).dependencies ∧ ¬ (d = t ∧ x ∈ s.tasks)
  dependents : ∀ d x, x ∈ (s'.task d).dependents ↔ x ∈ (s.task d).dependents ∧ d ≠ t ∧ x ≠ t
  ready : ∃ new, s'.ready = s.ready ++ new ∧ new.Nodup ∧ ∀ x, x ∈ new ↔
    x ∈ s.tasks ∧ t ∈ (s.task x).dependencies ∧ ∀ d ∈ (s.task x).dependencies, d = t
  settledPuts : s'.settledPuts.length ≤ s.settledPuts.length + 1

theorem TaskGraph.not_self (h : s.TaskGraph) (t : Nat) : t ∉ (s.task t).dependents := by
  intro ht
  obtain ⟨hlive, hdep⟩ := (h.mirror t t).mp ht
  exact absurd (h.depends t hlive t hdep).2 (Nat.lt_irrefl t)

theorem release_spec (h : s.TaskGraph) (error : Option JsError) : Released t s (s.release t error) := by
  generalize hs1 : s.modify t (fun task => { task with
    settled := true
    error := error
    phase := .finished }) = s1
  have h₁ : ∀ x, x ≠ t → s1.task x = s.task x := fun x hx => by rw [← hs1, modify_ne _ _ hx]
  have h₁t : s1.task t = { s.task t with
      settled := true
      error := error
      phase := .finished } := by rw [← hs1, modify_self]
  have hfields : ∀ x, (s1.task x).action = (s.task x).action ∧ (s1.task x).started = (s.task x).started ∧
      (s1.task x).dependencies = (s.task x).dependencies ∧
      (s1.task x).dependents = (s.task x).dependents := by
    intro x
    by_cases hx : x = t
    · rw [hx, h₁t]
      exact ⟨rfl, rfl, rfl, rfl⟩
    · rw [h₁ x hx]
      exact ⟨rfl, rfl, rfl, rfl⟩
  generalize hs2 : ({ s1 with
    activeWrites := if (s1.task t).started then s1.activeWrites - 1 else s1.activeWrites
    pendingWrites := s1.pendingWrites - 1
    tasks := s1.tasks.erase t } : DurableMirrorStore) = s2
  have htask2 : s2.task = s1.task := by rw [← hs2]
  have hrel := releaseDependents_spec t (s2.task t).dependents.elems s2
  generalize hs3 : (s2.task t).dependents.elems.foldl (releaseDependent t) s2 = s3 at hrel
  obtain ⟨task', hs4, htask'⟩ := forgetDependent_spec t (s3.task t).dependencies.elems s3
  have hrelease : s.release t error = if (task' t).action.writesRecord then
      { s3 with
        task := task'
        settledPuts := s3.settledPuts ++ [t] }
      else { s3 with task := task' } := by
    rw [release, hs1, hs2, hs3, hs4]
  have hl : (s2.task t).dependents.elems = (s.task t).dependents.elems := by
    rw [htask2, (hfields t).2.2.2]
  rw [hl] at hrel
  -- the fields of a task after both loops
  have hsame : ∀ x, (task' x).action = (s.task x).action ∧ (task' x).started = (s.task x).started ∧
      (task' x).settled = (s1.task x).settled ∧ (task' x).phase = (s1.task x).phase := by
    intro x
    obtain ⟨dependents, hx, -⟩ := htask' x
    obtain ⟨h1, h2, h3, h4⟩ := hrel.same x
    rw [hx]
    rw [htask2] at h1 h2 h3 h4
    exact ⟨h1.trans (hfields x).1, h2.trans (hfields x).2.1, h3, h4⟩
  have hdeps : ∀ x d, d ∈ (task' x).dependencies ↔ d ∈ (s.task x).dependencies ∧ ¬ (d = t ∧ x ∈ (s.task t).dependents) := by
    intro x d
    obtain ⟨dependents, hx, -⟩ := htask' x
    rw [hx]
    show d ∈ (s3.task x).dependencies ↔ _
    rw [hrel.dependencies, htask2, (hfields x).2.2.1]
    exact Iff.rfl
  have hdepst : ∀ d, d ∈ (s3.task t).dependencies ↔ d ∈ (s.task t).dependencies := by
    intro d
    rw [hrel.dependencies, htask2, (hfields t).2.2.1]
    exact ⟨fun h' => h'.1, fun h' => ⟨h', fun h'' => h.not_self t h''.2⟩⟩
  have hdependents : ∀ d x, x ∈ (task' d).dependents ↔ x ∈ (s.task d).dependents ∧ d ≠ t ∧ x ≠ t := by
    intro d x
    obtain ⟨dependents, hd, hmem⟩ := htask' d
    rw [hd]
    show x ∈ dependents ↔ _
    have hlist : d ∈ (s3.task t).dependencies.elems ↔ d ∈ (s.task t).dependencies := hdepst d
    rw [hmem, hrel.dependents, htask2, (hfields d).2.2.2, hlist]
    constructor
    · rintro ⟨⟨hx, hnot⟩, hnot'⟩
      refine ⟨hx, fun hd => hnot ⟨hd, hd ▸ hx⟩, fun hxt => hnot' ⟨hxt, ?_⟩⟩
      exact ((h.mirror d t).mp (hxt ▸ hx)).2
    · rintro ⟨hx, hd, hxt⟩
      exact ⟨⟨hx, fun h' => hd h'.1⟩, fun h' => hxt h'.1⟩
  have hready : ∃ new, s3.ready = s.ready ++ new ∧ new.Nodup ∧ ∀ x, x ∈ new ↔
      x ∈ s.tasks ∧ t ∈ (s.task x).dependencies ∧ ∀ d ∈ (s.task x).dependencies, d = t := by
    obtain ⟨new, hnew, hsub, hmem⟩ := hrel.ready
    have hready2 : s2.ready = s.ready := by
      rw [← hs2, ← hs1]
      rfl
    refine ⟨new, by rw [hnew, hready2], (s.task t).dependents.nodup.sublist hsub, fun x => ?_⟩
    constructor
    · intro hx
      have hdep := hsub.subset hx
      obtain ⟨hlive, hxt⟩ := (h.mirror t x).mp hdep
      have hcond := ((hmem x hdep).mp hx).2
      rw [htask2, (hfields x).2.2.1] at hcond
      exact ⟨hlive, hxt, hcond⟩
    · rintro ⟨hlive, hxt, hcond⟩
      have hdep := (h.mirror t x).mpr ⟨hlive, hxt⟩
      refine (hmem x hdep).mpr ⟨?_, ?_⟩
      · have hne : x ≠ t := fun hx => h.not_self t (hx ▸ hdep)
        rw [htask2, h₁ x hne]
        exact ((h.live x).mp hlive).2
      · rw [htask2, (hfields x).2.2.1]
        exact hcond
  have hsettled : ∀ x, (task' x).settled = if x = t then true else (s.task x).settled := by
    intro x
    rw [(hsame x).2.2.1]
    split_ifs with hx
    · rw [hx, h₁t]
    · rw [h₁ x hx]
  have hphase : ∀ x, x ≠ t → (task' x).phase = (s.task x).phase := by
    intro x hx
    rw [(hsame x).2.2.2, h₁ x hx]
  have hlive : ∀ x d, d ∈ (task' x).dependencies ↔ d ∈ (s.task x).dependencies ∧ ¬ (d = t ∧ x ∈ s.tasks) := by
    intro x d
    rw [hdeps, h.mirror]
    refine and_congr_right fun hd => not_congr (and_congr_right fun hdt => ?_)
    exact ⟨fun hx => hx.1, fun hx => ⟨hx, hdt ▸ hd⟩⟩
  have hframe3 : s3 = { s with
      task := s3.task
      ready := s3.ready
      tasks := s.tasks.erase t
      activeWrites := if (s.task t).started then s.activeWrites - 1 else s.activeWrites
      pendingWrites := s.pendingWrites - 1 } := by
    rw [hrel.frame, ← hs2, (hfields t).2.1, ← hs1]
    rfl
  have hputs3 : s3.settledPuts = s.settledPuts := by rw [hframe3]
  rw [hrelease]
  split_ifs
  · refine ⟨?_, fun x => (hsame x).1, fun x => (hsame x).2.1, hsettled, hphase, hlive, hdependents, hready, ?_⟩
    · rw [hframe3]
    · rw [hputs3]
      simp
  · refine ⟨?_, fun x => (hsame x).1, fun x => (hsame x).2.1, hsettled, hphase, hlive, hdependents, hready, ?_⟩
    · rw [hframe3]
    · rw [hputs3]
      omega

end DurableMirrorStore

end Premise.DurableMirror
