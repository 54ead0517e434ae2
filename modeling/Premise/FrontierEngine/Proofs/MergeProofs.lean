import Premise.FrontierEngine.Proofs.CompactProofs

/-!
# Proofs: `mergeDirtyState`

Merging the roots of one node into another raises the incoming active roots there, keeps the frontier
of the node the set of its minimal roots, and reports a change only when some root went up.
-/

namespace Premise.FrontierEngine

open Collections Premise.Graph Relation

namespace IncrementalFrontierEngine

variable {e e' : IncrementalFrontierEngine} {dirty : String → Option FrontierStatus}
  {stale queued pending : Set String} {n root : String} {status : FrontierStatus}

def severity (s : Option FrontierStatus) : Nat := (s.map FrontierStatus.priority).getD 0

theorem priority_pos (h : status ≠ .fresh) : 0 < status.priority := by
  cases status
  · exact absurd rfl h
  all_goals decide

/-- What raising a root leaves alone. -/
structure MergeFrame (e e' : IncrementalFrontierEngine) : Prop where
  frame : Frame e e'
  inactive : e'.inactiveDirtyRoots = e.inactiveDirtyRoots
  roots : e'.activeDirtyRoots = e.activeDirtyRoots
  frontiers : e'.activeFrontiers = e.activeFrontiers

theorem MergeFrame.refl (e : IncrementalFrontierEngine) : MergeFrame e e :=
  ⟨Frame.refl e, rfl, rfl, rfl⟩

theorem MergeFrame.trans {e'' : IncrementalFrontierEngine} (h : MergeFrame e e')
    (h' : MergeFrame e' e'') : MergeFrame e e'' :=
  ⟨h.frame.trans h'.frame, h'.inactive.trans h.inactive, h'.roots.trans h.roots, h'.frontiers.trans h.frontiers⟩

theorem MergeFrame.dead_eq (h : MergeFrame e e') : e'.dead = e.dead := by
  rw [dead, h.inactive]
  rfl

theorem MergeFrame.rootStatus_eq (h : MergeFrame e e') : e'.rootStatus = e.rootStatus := by
  funext m r
  rw [rootStatus, h.roots]
  rfl

theorem MergeFrame.nodeFrontier_eq (h : MergeFrame e e') : e'.nodeFrontier = e.nodeFrontier := by
  funext m
  rw [nodeFrontier, h.frontiers]
  rfl

theorem Charged.mergeFrame (h : Charged e e') (hok : e'.frontierBudgetExceeded = false) : MergeFrame e e' := by
  refine ⟨h.frame hok, ?_, ?_, ?_⟩
  all_goals
    obtain ⟨-, w, rfl⟩ := h.within hok
    rfl

/-- What `noteRoot` does. -/
structure Noted (n root : String) (e e' : IncrementalFrontierEngine) : Prop where
  mergeFrame : MergeFrame e e'
  nodes : ∀ r m, m ∈ e'.rootNodes r ↔ m ∈ e.rootNodes r ∨ (r = root ∧ m = n)
  closure : ∀ r l, e'.affectedClosureCache.get? r = some l →
    e.affectedClosureCache.get? r = some l ∧ (r = root → n ∈ e.rootNodes root)
  counts : e'.rootEntryCounts = e.rootEntryCounts

theorem noteRoot_spec (hok : (e.noteRoot n root).frontierBudgetExceeded = false) :
    e.frontierBudgetExceeded = false ∧ Noted n root e (e.noteRoot n root) := by
  have hnodes : ∀ r m, m ∈ ((e.dirtyNodesByRoot.set root ((e.rootNodes root).add n)).get? r).getD ∅
      ↔ m ∈ e.rootNodes r ∨ (r = root ∧ m = n) := by
    intro r m
    by_cases hr : r = root
    · subst hr
      rw [OrderedMap.get?_set_self, Option.getD_some, OrderedSet.mem_add]
      tauto
    · rw [OrderedMap.get?_set_of_ne _ _ hr]
      simp only [hr, false_and, or_false]
      rfl
  unfold noteRoot at hok ⊢
  by_cases hcond : n ∉ (e.dirtyNodesByRoot.get? root).getD ∅ ∧ e.affectedClosureCache.has root = true
  · rw [if_pos hcond] at hok ⊢
    obtain ⟨hoke, w, hw⟩ := (count_charged _).within hok
    rw [hw]
    refine ⟨hoke, ⟨⟨rfl, rfl, rfl, rfl, rfl, rfl, rfl, rfl⟩, rfl, rfl, rfl⟩, hnodes, ?_, rfl⟩
    intro r l hl
    rw [OrderedMap.get?_erase] at hl
    split_ifs at hl with hr
    exact ⟨hl, fun h => absurd h hr⟩
  · rw [if_neg hcond] at hok ⊢
    refine ⟨hok, ⟨⟨rfl, rfl, rfl, rfl, rfl, rfl, rfl, rfl⟩, rfl, rfl, rfl⟩, hnodes, fun r l hl => ⟨hl, ?_⟩, rfl⟩
    rintro rfl
    by_contra hn
    exact hcond ⟨hn, e.affectedClosureCache.has_eq_true.mpr (e.affectedClosureCache.mem_keys_of_get? hl)⟩

/-! ## `mergeRoots` -/

/-- The engine as it will be when `roots` are stored as the roots of `n`. -/
def withRoots (e : IncrementalFrontierEngine) (n : String)
    (roots : OrderedMap String FrontierStatus) : IncrementalFrontierEngine :=
  { e with activeDirtyRoots := e.activeDirtyRoots.set n roots }

theorem withRoots_rootStatus (roots : OrderedMap String FrontierStatus) (m r : String) :
    (e.withRoots n roots).rootStatus m r = if m = n then roots.get? r else e.rootStatus m r :=
  rootStatus_of_set rfl m r

theorem withRoots_frame (e : IncrementalFrontierEngine) (n : String)
    (roots : OrderedMap String FrontierStatus) : Frame e (e.withRoots n roots) :=
  ⟨rfl, rfl, rfl, rfl, rfl, rfl, rfl, rfl⟩

theorem Charged.withRoots (h : Charged e e') (roots : OrderedMap String FrontierStatus) :
    Charged (e.withRoots n roots) (e'.withRoots n roots) where
  dependencies := h.dependencies
  dependents := h.dependents
  within := by
    intro hok
    obtain ⟨hoke, w, rfl⟩ := h.within hok
    exact ⟨hoke, w, rfl⟩

theorem raise_indexed {roots : OrderedMap String FrontierStatus} {dead : Set String}
    (h : (e.withRoots n roots).Indexed dirty dead stale queued pending)
    (hmf : MergeFrame e e')
    (hnodes : ∀ r m, m ∈ e'.rootNodes r ↔ m ∈ e.rootNodes r ∨ (r = root ∧ m = n))
    (hclosure : ∀ r l, e'.affectedClosureCache.get? r = some l →
      e.affectedClosureCache.get? r = some l ∧ (r = root → n ∈ e.rootNodes root))
    (hcounts : ∀ r, (e.rootEntryCounts.get? r).getD 0
      + (if r = root ∧ roots.get? root = none then 1 else 0) ≤ (e'.rootEntryCounts.get? r).getD 0)
    (hsevere : status ≠ .fresh) (hreach : e.Reach root n)
    (hsound : root ∈ dead ∨ ∃ t, dirty root = some t ∧ status.priority ≤ t.priority)
    (hup : root ∈ dead ∨ ∀ s, roots.get? root = some s → s.priority ≤ status.priority)
    (hstale : n ∈ stale) (hqueued : n ∈ queued) :
    (e'.withRoots n (roots.set root status)).Indexed dirty dead stale queued pending := by
  have hst : ∀ m r, (e'.withRoots n (roots.set root status)).rootStatus m r
      = if m = n ∧ r = root then some status else (e.withRoots n roots).rootStatus m r := by
    intro m r
    rw [withRoots_rootStatus, withRoots_rootStatus, hmf.rootStatus_eq, OrderedMap.get?_set]
    by_cases hm : m = n
    · by_cases hr : r = root
      · simp [hm, hr]
      · simp [hm, hr]
    · simp [hm]
  refine h.raise (n := n) hmf.frame.dependencies
    hmf.frame.dependents hst hnodes hclosure ?_ (fun m _ => congrFun hmf.nodeFrontier_eq m)
    hsevere hreach hsound ?_ hstale (Or.inr hqueued)
  · intro r
    have hle := h.entries_le r
    have hc := hcounts r
    have h1 := rootEntries_of_set (e := e) (f := e.withRoots n roots) (n := n) rfl r
    have h2 := rootEntries_of_set (e := e') (f := e'.withRoots n (roots.set root status)) (n := n) rfl r
    have hsame : e'.rootEntries r = e.rootEntries r := by
      rw [rootEntries, hmf.roots]
      rfl
    have hcount : (e.withRoots n roots).rootEntryCounts = e.rootEntryCounts := rfl
    rw [hcount] at hle
    rw [hsame, hmf.rootStatus_eq, OrderedMap.get?_set] at h2
    show (e'.withRoots n (roots.set root status)).rootEntries r ≤ (e'.rootEntryCounts.get? r).getD 0
    by_cases hr : r = root
    · subst hr
      simp only [true_and] at hc
      rw [if_pos rfl] at h2
      cases hget : roots.get? r with
      | none =>
        rw [hget] at h1 hc
        simp only [if_true, Option.isSome_none, Option.isSome_some, Bool.false_eq_true, if_false]
          at h1 h2 hc
        omega
      | some s =>
        rw [hget] at h1 hc
        simp only [Option.isSome_some, if_true, reduceCtorEq, if_false] at h1 h2 hc
        omega
    · rw [if_neg hr] at h2
      simp only [hr, false_and, if_false] at hc
      omega
  · refine hup.imp_right fun hup s hs => hup s ?_
    rwa [withRoots_rootStatus, if_pos rfl] at hs

theorem mergeRoots_exceeded (incoming : List (String × FrontierStatus))
    (roots : OrderedMap String FrontierStatus) (changed : Bool)
    (h : e.frontierBudgetExceeded = true) :
    (mergeRoots n incoming roots changed e).1.frontierBudgetExceeded = true := by
  induction incoming with
  | nil => exact h
  | cons p rest ih =>
    simp only [mergeRoots, count_of_exceeded h, h, if_true]
    split_ifs
    · exact ih
    · exact h

/-- What an incoming root of `n` must be: a tombstone that another node has, or a direct root of at
    least its severity that `n` depends on. -/
def Incoming (e : IncrementalFrontierEngine) (dirty : String → Option FrontierStatus) (n : String)
    (incoming : List (String × FrontierStatus)) : Prop :=
  ∀ p ∈ incoming, (p.1 ∈ e.dead ∧ ∃ m, m ≠ n ∧ ∃ s, e.rootStatus m p.1 = some s) ∨
    ((∃ t, dirty p.1 = some t ∧ p.2.priority ≤ t.priority) ∧ e.Reach p.1 n ∧ p.2 ≠ .fresh)

theorem Incoming.congr {incoming : List (String × FrontierStatus)} (h : e.Incoming dirty n incoming)
    (hmf : MergeFrame e e') : e'.Incoming dirty n incoming := by
  intro p hp
  rw [hmf.dead_eq, hmf.rootStatus_eq, reach_congr hmf.frame.dependents]
  exact h p hp

theorem Incoming.compacts {incoming : List (String × FrontierStatus)}
    (h : e.Incoming dirty n incoming) (hI : e.Indexed dirty e.dead stale queued pending)
    (hI' : e'.Indexed dirty e'.dead stale queued pending) (hc : Compacts n e e') :
    e'.Incoming dirty n incoming := by
  intro p hp
  rcases h p hp with ⟨hd, m, hm, s, hs⟩ | hlive
  · have hs' : e'.rootStatus m p.1 = some s := (hc.others m hm p.1).trans hs
    rcases hI'.sound m p.1 s hs' with hd' | ⟨t, ht, -⟩
    · exact .inl ⟨hd', m, hm, s, hs'⟩
    · exact absurd hd (hI.dirty_alive p.1 t ht)
  · rw [reach_congr hc.grows.frame.dependents]
    exact .inr hlive

/-- What `mergeRoots` makes of the roots of a node, when `dead` are the tombstoned roots. -/
structure MergedRoots (dead : Set String) (incoming : List (String × FrontierStatus))
    (roots roots' : OrderedMap String FrontierStatus) : Prop where
  kept : ∀ r s, roots.get? r = some s → ∃ s', roots'.get? r = some s' ∧ s.priority ≤ s'.priority
  merged : ∀ p ∈ incoming, p.1 ∉ dead →
    ∃ s', roots'.get? p.1 = some s' ∧ p.2.priority ≤ s'.priority
  origin : ∀ r s, roots'.get? r = some s →
    (∃ s₀, roots.get? r = some s₀) ∨ (r ∉ dead ∧ ∃ p ∈ incoming, p.1 = r)

section

variable {dead : Set String} {p : String × FrontierStatus} {rest : List (String × FrontierStatus)}
  {roots roots' : OrderedMap String FrontierStatus}

theorem MergedRoots.refl (dead : Set String) (roots : OrderedMap String FrontierStatus) : MergedRoots dead [] roots roots :=
  ⟨fun _ s hs => ⟨s, hs, le_rfl⟩, by simp, fun _ s hs => Or.inl ⟨s, hs⟩⟩

theorem MergedRoots.skip (h : MergedRoots dead rest roots roots')
    (hp : p.1 ∉ dead → ∃ s, roots.get? p.1 = some s ∧ p.2.priority ≤ s.priority) :
    MergedRoots dead (p :: rest) roots roots' := by
  refine ⟨h.kept, ?_, ?_⟩
  · intro q hq hlive
    rcases List.mem_cons.mp hq with rfl | hq
    · obtain ⟨s, hs, hle⟩ := hp hlive
      obtain ⟨s', hs', hle'⟩ := h.kept _ s hs
      exact ⟨s', hs', hle.trans hle'⟩
    · exact h.merged q hq hlive
  · intro r s hs
    rcases h.origin r s hs with ho | ⟨hd, q, hq, hr⟩
    · exact .inl ho
    · exact .inr ⟨hd, q, List.mem_cons_of_mem _ hq, hr⟩

theorem MergedRoots.raise (h : MergedRoots dead rest (roots.set p.1 p.2) roots') (hp : p.1 ∉ dead)
    (hup : ∀ s, roots.get? p.1 = some s → s.priority ≤ p.2.priority) :
    MergedRoots dead (p :: rest) roots roots' := by
  refine ⟨?_, ?_, ?_⟩
  · intro r s hs
    by_cases hr : r = p.1
    · subst hr
      obtain ⟨s', hs', hle⟩ := h.kept p.1 p.2 (OrderedMap.get?_set_self ..)
      exact ⟨s', hs', (hup s hs).trans hle⟩
    · exact h.kept r s (by rw [OrderedMap.get?_set_of_ne _ _ hr]; exact hs)
  · intro q hq hlive
    rcases List.mem_cons.mp hq with rfl | hq
    · exact h.kept _ _ (OrderedMap.get?_set_self ..)
    · exact h.merged q hq hlive
  · intro r s hs
    rcases h.origin r s hs with ⟨s0, hs0⟩ | ⟨hd, q, hq, hr⟩
    · by_cases hr : r = p.1
      · exact .inr ⟨hr ▸ hp, p, List.mem_cons_self .., hr.symm⟩
      · rw [OrderedMap.get?_set_of_ne _ _ hr] at hs0
        exact .inl ⟨s0, hs0⟩
    · exact .inr ⟨hd, q, List.mem_cons_of_mem _ hq, hr⟩

end

def Raised (dirty before after : String → Option FrontierStatus) : Prop :=
  ∃ r t, dirty r = some t ∧ severity (before r) < severity (after r)

/-- What the loop over the incoming roots returns, from the roots and the flag it started with. -/
structure MergeSpec (dirty : String → Option FrontierStatus) (stale queued pending : Set String)
    (n : String) (incoming : List (String × FrontierStatus)) (e : IncrementalFrontierEngine)
    (roots : OrderedMap String FrontierStatus) (changed : Bool)
    (r : IncrementalFrontierEngine × OrderedMap String FrontierStatus × Bool) : Prop where
  within : e.frontierBudgetExceeded = false
  indexed : (r.1.withRoots n r.2.1).Indexed dirty e.dead stale queued pending
  mergeFrame : MergeFrame e r.1
  merged : MergedRoots e.dead incoming roots r.2.1
  unchanged : r.2.2 = false → changed = false ∧ r.2.1 = roots ∧ Charged e r.1
  raised : r.2.2 = true → changed = true ∨ Raised dirty roots.get? r.2.1.get?

theorem mergeRoots_spec (incoming : List (String × FrontierStatus))
    (roots : OrderedMap String FrontierStatus) (changed : Bool)
    (h : (e.withRoots n roots).Indexed dirty e.dead stale queued pending)
    (hinc : e.Incoming dirty n incoming) (hstale : n ∈ stale) (hqueued : n ∈ queued)
    (hok : (mergeRoots n incoming roots changed e).1.frontierBudgetExceeded = false) :
    MergeSpec dirty stale queued pending n incoming e roots changed
      (mergeRoots n incoming roots changed e) := by
  induction incoming generalizing e roots changed with
  | nil =>
    exact ⟨hok, h, MergeFrame.refl e, MergedRoots.refl e.dead roots, fun hf => ⟨hf, rfl, Charged.refl e⟩, Or.inl⟩
  | cons p rest ih =>
    obtain ⟨root, status⟩ := p
    have hrest : e.Incoming dirty n rest := fun q hq => hinc q (List.mem_cons_of_mem _ hq)
    simp only [mergeRoots] at hok ⊢
    by_cases hdead : root ∈ e.inactiveDirtyRoots
    · rw [if_pos hdead] at hok ⊢
      obtain ⟨h1, h2, h3, h4, h5, h6⟩ := ih roots changed h hrest hok
      exact ⟨h1, h2, h3, h4.skip (fun hlive => absurd hdead hlive), h5, h6⟩
    · rw [if_neg hdead] at hok ⊢
      obtain ⟨⟨t, ht, hle⟩, hreach, hsevere⟩ :=
        (hinc _ (List.mem_cons_self ..)).resolve_left (fun hd => hdead hd.1)
      have hch := count_charged e
      generalize e.count = e1 at hch hok ⊢
      by_cases hex : e1.frontierBudgetExceeded = true
      · rw [if_pos hex] at hok
        simp [hex] at hok
      rw [if_neg hex] at hok ⊢
      have hok1 : e1.frontierBudgetExceeded = false := by simpa using hex
      obtain ⟨hoke, -⟩ := hch.within hok1
      have hmf1 := hch.mergeFrame hok1
      have hI1 := h.charged (hch.withRoots roots) hok1
      have hreach1 : e1.Reach root n := by rwa [reach_congr hmf1.frame.dependents]
      rw [← hmf1.dead_eq] at hI1
      -- what raising `root` to `status` in `e1` leads to
      have hraise : ∀ e2, MergeFrame e1 e2 →
          (e2.withRoots n (roots.set root status)).Indexed dirty e1.dead stale queued pending →
          (∀ s, roots.get? root = some s → s.priority ≤ status.priority) →
          severity (roots.get? root) < status.priority →
          (mergeRoots n rest (roots.set root status) true e2).1.frontierBudgetExceeded = false →
          MergeSpec dirty stale queued pending n ((root, status) :: rest) e roots changed
            (mergeRoots n rest (roots.set root status) true e2) := by
        intro e2 hmf2 hI2 hup hlt hok2
        rw [← hmf2.dead_eq] at hI2
        have hmf := hmf1.trans hmf2
        obtain ⟨h1, h2, h3, h4, h5, h6⟩ := ih _ true hI2 (hrest.congr hmf) hok2
        rw [hmf.dead_eq] at h2 h4
        refine ⟨hoke, h2, hmf.trans h3, h4.raise (p := (root, status)) hdead hup, ?_, ?_⟩
        · intro hf
          exact absurd (h5 hf).1 (by simp)
        · intro _
          obtain ⟨s', hs', hle'⟩ := h4.kept root status (OrderedMap.get?_set_self ..)
          refine .inr ⟨root, t, ht, ?_⟩
          rw [hs']
          exact lt_of_lt_of_le hlt hle'
      have hnoteok : ∀ e2 : IncrementalFrontierEngine,
          (mergeRoots n rest (roots.set root status) true e2).1.frontierBudgetExceeded = false →
          e2.frontierBudgetExceeded = false := by
        intro e2 hok2
        rw [Bool.eq_false_iff]
        intro hx
        rw [mergeRoots_exceeded _ _ _ hx] at hok2
        cases hok2
      cases hget : roots.get? root with
      | some previous =>
        simp only [hget] at hok ⊢
        by_cases hge : previous.priority ≥ status.priority
        · rw [if_pos hge] at hok ⊢
          obtain ⟨-, h2, h3, h4, h5, h6⟩ := ih roots changed hI1 (hrest.congr hmf1) hok
          rw [hmf1.dead_eq] at h2 h4
          refine ⟨hoke, h2, hmf1.trans h3, h4.skip (fun _ => ⟨previous, hget, hge⟩), ?_, h6⟩
          intro hf
          obtain ⟨ha, hb, hc⟩ := h5 hf
          exact ⟨ha, hb, hch.trans hc⟩
        · rw [if_neg hge] at hok ⊢
          obtain ⟨-, hnoted⟩ := noteRoot_spec (hnoteok _ hok)
          have hup : ∀ s, roots.get? root = some s → s.priority ≤ status.priority := by
            intro s hs
            rw [hget] at hs
            cases hs
            omega
          refine hraise _ hnoted.mergeFrame ?_ hup ?_ hok
          · exact raise_indexed hI1 hnoted.mergeFrame hnoted.nodes hnoted.closure
              (fun r => by simp [hget, hnoted.counts]) hsevere hreach1 (Or.inr ⟨t, ht, hle⟩)
              (Or.inr hup) hstale hqueued
          · rw [hget]
            simp only [severity, Option.map_some, Option.getD_some]
            omega
      | none =>
        simp only [hget] at hok ⊢
        have hok2 := hnoteok _ hok
        obtain ⟨-, hnoted⟩ := noteRoot_spec (n := n) (e := e1) hok2
        have hup : ∀ s, roots.get? root = some s → s.priority ≤ status.priority := by
          intro s hs
          rw [hget] at hs
          cases hs
        have hmf2 := hnoted.mergeFrame
        generalize e1.noteRoot n root = e2 at hnoted hmf2 hok ⊢
        have hmf3 : MergeFrame e1 { e2 with
            rootEntryCounts :=
              e2.rootEntryCounts.set root ((e2.rootEntryCounts.get? root).getD 0 + 1) } :=
          ⟨⟨hmf2.frame.maxWork, hmf2.frame.dependencies, hmf2.frame.dependents,
            hmf2.frame.directDirty, hmf2.frame.frontierCache, hmf2.frame.generation,
            hmf2.frame.graphRevision, hmf2.frame.trusted⟩, hmf2.inactive, hmf2.roots,
            hmf2.frontiers⟩
        refine hraise _ hmf3 ?_ hup ?_ hok
        · refine raise_indexed hI1 hmf3 hnoted.nodes hnoted.closure (fun r => ?_) hsevere hreach1
            (Or.inr ⟨t, ht, hle⟩) (Or.inr hup) hstale hqueued
          rw [OrderedMap.get?_set, hnoted.counts]
          by_cases hr : r = root
          · simp [hr, hget]
          · simp [hr]
        · rw [hget]
          exact priority_pos hsevere

/-! ## `mergeDirtyState` -/

theorem addFrontierRoots_eq (roots : List String) (F : OrderedSet String)
    (e : IncrementalFrontierEngine) : addFrontierRoots roots F e = computeFrontierFrom roots F e := by
  induction roots generalizing F e with
  | nil => rfl
  | cons root roots ih =>
    rw [addFrontierRoots, computeFrontierFrom]
    simp only [ih]

/-- What `mergeDirtyState` does, in terms of the engine before and its result. -/
structure MergeResult (dirty : String → Option FrontierStatus) (queued pending : Set String)
    (n : String) (incoming : List (String × FrontierStatus)) (e : IncrementalFrontierEngine)
    (r : IncrementalFrontierEngine × Bool) : Prop where
  within : e.frontierBudgetExceeded = false
  indexed : r.1.Indexed dirty r.1.dead ∅ {m | m ∈ queued ∨ (r.2 = true ∧ m = n)} pending
  grows : Grows e r.1
  others : ∀ m, m ≠ n → ∀ x, r.1.rootStatus m x = e.rootStatus m x
  merged : ∀ p ∈ incoming, p.1 ∉ e.dead →
    ∃ s, r.1.rootStatus n p.1 = some s ∧ p.2.priority ≤ s.priority
  origin : ∀ x s, r.1.rootStatus n x = some s →
    (∃ s₀, e.rootStatus n x = some s₀) ∨ ∃ p ∈ incoming, p.1 = x
  raised : r.2 = true → Raised dirty (e.rootStatus n) (r.1.rootStatus n)

theorem mergePrepare_spec (hg : e.GraphInv) (h : e.Indexed dirty e.dead stale queued pending)
    (r : IncrementalFrontierEngine × Bool)
    (hr : r = if e.inactiveDirtyRoots.size > 0 then e.compactResolvedRoots n else (e, false))
    (hok : r.1.frontierBudgetExceeded = false) :
    e.frontierBudgetExceeded = false ∧ r.1.Indexed dirty r.1.dead stale queued pending ∧
      Compacts n e r.1 ∧ ∀ x s, r.1.rootStatus n x = some s → x ∉ r.1.dead := by
  by_cases hsize : e.inactiveDirtyRoots.size > 0
  · rw [if_pos hsize] at hr
    subst hr
    exact compactResolvedRoots_spec n hg h hok
  · rw [if_neg hsize] at hr
    subst hr
    have hzero : e.inactiveDirtyRoots.size = 0 := by omega
    exact ⟨hok, h, Compacts.refl n e, fun x _ _ => (OrderedSet.size_eq_zero _).mp hzero x⟩

theorem Indexed.withRoots_self {dead : Set String}
    (h : e.Indexed dirty dead stale queued pending) :
    (e.withRoots n ((e.activeDirtyRoots.get? n).getD ∅)).Indexed dirty dead stale queued
      pending := by
  have hst : (e.withRoots n ((e.activeDirtyRoots.get? n).getD ∅)).rootStatus = e.rootStatus := by
    funext m r
    rw [withRoots_rootStatus]
    split_ifs with hm
    · rw [hm]
      rfl
    · rfl
  refine h.congr rfl rfl hst rfl rfl (fun r => ?_) rfl
  have hent := rootEntries_of_set (e := e) (n := n) (f := e.withRoots n ((e.activeDirtyRoots.get? n).getD ∅)) rfl r
  have hle := h.entries_le r
  have hsame : ((e.activeDirtyRoots.get? n).getD ∅).get? r = e.rootStatus n r := rfl
  rw [hsame] at hent
  show rootEntries _ r ≤ (e.rootEntryCounts.get? r).getD 0
  omega

theorem mergeStart_charged (hg : e.GraphInv) (repaired : Bool) (roots : List String)
    (F : OrderedSet String) :
    Charged e (if repaired then e.computeFrontier roots else (e, F)).1 := by
  cases repaired with
  | true => exact (computeFrontier_spec hg roots).1
  | false => exact Charged.refl e

/-- Either way, adding the incoming roots to it gives the minimal roots of the node. -/
theorem mergeFrontier_spec {roots incoming : List String} {repaired : Bool} {F : OrderedSet String}
    {S K : Set String} (hg : e.GraphInv) (hF : IsFrontier e.Below {m | m ∈ F} S)
    (hkeys : {r | r ∈ roots ∧ r ∉ e.inactiveDirtyRoots} = K)
    (hunion : S ∪ {r | r ∈ incoming ∧ r ∉ e.inactiveDirtyRoots} = K)
    (r4 : IncrementalFrontierEngine × OrderedSet String)
    (hr4 : (if repaired then e.computeFrontier roots else (e, F)) = r4)
    (hok5 : r4.1.count.frontierBudgetExceeded = false) :
    Charged e (addFrontierRoots incoming r4.2 r4.1.count).1 ∧
      ((addFrontierRoots incoming r4.2 r4.1.count).1.frontierBudgetExceeded = false →
        IsFrontier e.Below {m | m ∈ (addFrontierRoots incoming r4.2 r4.1.count).2} K) := by
  have hch : Charged e r4.1 := hr4 ▸ mergeStart_charged hg repaired roots F
  have hch5 := hch.trans (count_charged r4.1)
  have hok4 := ((count_charged r4.1).within hok5).1
  obtain ⟨S', hF', hunion'⟩ : ∃ S', IsFrontier e.Below {m | m ∈ r4.2} S' ∧
      S' ∪ {r | r ∈ incoming ∧ r ∉ e.inactiveDirtyRoots} = K := by
    cases repaired with
    | true =>
      simp only [if_true] at hr4
      subst hr4
      refine ⟨K, hkeys ▸ (computeFrontier_spec hg roots).2 hok4, ?_⟩
      rw [Set.union_eq_left, ← hunion]
      exact Set.subset_union_right
    | false =>
      simp only [Bool.false_eq_true, if_false] at hr4
      subst hr4
      exact ⟨S, hF, hunion⟩
  generalize r4.1.count = e5 at hok5 hch5 ⊢
  rw [addFrontierRoots_eq]
  obtain ⟨hch6, hfr⟩ := computeFrontierFrom_spec incoming r4.2 (hch5.graphInv hg) (S := S') (by rw [hch5.below]; exact hF')
  rw [hch5.below, (hch5.mergeFrame hok5).inactive, hunion'] at hfr
  exact ⟨hch5.trans hch6, hfr⟩

theorem mergeDirtyState_spec (hg : e.GraphInv) (incoming : OrderedMap String FrontierStatus)
    (h : e.Indexed dirty e.dead ∅ queued pending) (hinc : e.Incoming dirty n incoming.entries)
    (hok : (e.mergeDirtyState n incoming).1.frontierBudgetExceeded = false) :
    MergeResult dirty queued pending n incoming.entries e (e.mergeDirtyState n incoming) := by
  unfold mergeDirtyState at hok ⊢
  have hprep := mergePrepare_spec (n := n) hg h _ rfl
  generalize (if e.inactiveDirtyRoots.size > 0 then e.compactResolvedRoots n else (e, false)) = p1
    at hprep hok ⊢
  obtain ⟨e1, repaired⟩ := p1
  dsimp only at hprep hok ⊢
  by_cases hex : e1.frontierBudgetExceeded = true
  · rw [if_pos hex] at hok
    simp [hex] at hok
  rw [if_neg hex] at hok ⊢
  obtain ⟨hoke, hI1, hcomp, hclean⟩ := hprep (by simpa using hex)
  have hinc1 := hinc.compacts h hI1 hcomp
  -- the loop runs as if the roots so far were stored already
  have hstart : (e1.withRoots n ((e1.activeDirtyRoots.get? n).getD ∅)).Indexed dirty e1.dead
      (insert n ∅) {m | m ∈ queued ∨ (true = true ∧ m = n)} pending :=
    hI1.withRoots_self.mono (Set.empty_subset _) (fun m hm => Or.inl hm) subset_rfl
  have hroots := mergeRoots_spec incoming.entries ((e1.activeDirtyRoots.get? n).getD ∅) false hstart
    hinc1 (Set.mem_insert n ∅) (Or.inr ⟨rfl, rfl⟩)
  generalize mergeRoots n incoming.entries ((e1.activeDirtyRoots.get? n).getD ∅) false e1 = p2
    at hroots hok ⊢
  obtain ⟨e2, roots, changed⟩ := p2
  cases changed with
  | false =>
    simp only [Bool.not_false, if_true] at hok ⊢
    obtain ⟨-, -, hmf, hmerged, hun, -⟩ := hroots hok
    obtain ⟨-, hsame, hch⟩ := hun rfl
    have hI2 := hI1.charged hch hok
    rw [← hmf.dead_eq] at hI2
    have hcomp2 := hcomp.trans (hch.compacts hok n)
    refine ⟨hoke, hI2.mono subset_rfl (fun m hm => Or.inl hm) subset_rfl, hcomp2.grows,
      hcomp2.others, ?_, fun x s hs => Or.inl ⟨s, hcomp2.removed x s hs⟩, by simp⟩
    intro p hp hlive
    obtain ⟨s, hs, hle⟩ := hmerged.merged p hp (fun hd => hlive (hcomp.grows.dead_sub hd))
    refine ⟨s, ?_, hle⟩
    rw [hsame] at hs
    rw [hmf.rootStatus_eq]
    exact hs
  | true =>
    simp only [Bool.not_true, Bool.false_eq_true, if_false] at hok ⊢
    have hstored : ({ e2 with activeDirtyRoots := e2.activeDirtyRoots.set n roots } :
        IncrementalFrontierEngine) = e2.withRoots n roots := rfl
    rw [hstored] at hok ⊢
    have hch3 := count_charged (e2.withRoots n roots)
    generalize (e2.withRoots n roots).count = e3 at hch3 hok ⊢
    generalize hp4 : (if repaired = true then e3.computeFrontier roots.keys
      else (e3, (e3.activeFrontiers.get? n).getD ∅)) = p4 at hok ⊢
    by_cases hex5 : p4.1.count.frontierBudgetExceeded = true
    · rw [if_pos hex5] at hok
      simp [hex5] at hok
    rw [if_neg hex5] at hok ⊢
    have hok5 : p4.1.count.frontierBudgetExceeded = false := by simpa using hex5
    -- the budget held so far, so that everything known about the roots is available
    have hok3 : e3.frontierBudgetExceeded = false := by
      rw [Bool.eq_false_iff]
      intro hx
      have hx4 : p4.1.frontierBudgetExceeded = true := by
        rw [← hp4]
        split_ifs
        · exact computeFrontierFrom_exceeded hx roots.keys ∅
        · exact hx
      rw [count_of_exceeded hx4, hx4] at hok5
      cases hok5
    obtain ⟨-, hI2, hmf, hmerged, -, hraised⟩ := hroots (hch3.within hok3).1
    have hI3 := hI2.charged hch3 hok3
    have hst3 : ∀ m r, e3.rootStatus m r = if m = n then roots.get? r else e1.rootStatus m r := by
      intro m r
      rw [(hch3.mergeFrame hok3).rootStatus_eq, withRoots_rootStatus, hmf.rootStatus_eq]
    have hdead3 : e3.dead = e1.dead := ((hch3.mergeFrame hok3).dead_eq).trans hmf.dead_eq
    have hlive : ∀ r s, roots.get? r = some s → r ∉ e1.dead := by
      intro r s hs
      rcases hmerged.origin r s hs with ⟨s0, hs0⟩ | ⟨hd, -⟩
      · exact hclean r s0 hs0
      · exact hd
    have hframe3 : Frame e e3 :=
      hcomp.grows.frame.trans (hmf.frame.trans ((withRoots_frame e2 n roots).trans (hch3.frame hok3)))
    have hF3 : IsFrontier e3.Below {m | m ∈ (e3.activeFrontiers.get? n).getD ∅} {r | ∃ s, e1.rootStatus n r = some s} := by
      have h1 := hI1.frontier n (Set.notMem_empty n) hclean
      have hfr : e3.activeFrontiers = e1.activeFrontiers :=
        (hch3.mergeFrame hok3).frontiers.trans hmf.frontiers
      rw [below_congr (hframe3.dependents.trans hcomp.grows.frame.dependents.symm), hfr]
      exact h1
    have hkeys : {r | r ∈ roots.keys ∧ r ∉ e3.inactiveDirtyRoots} = {r | ∃ s, roots.get? r = some s} := by
      ext r
      constructor
      · rintro ⟨hr, -⟩
        exact roots.mem_keys.mp hr
      · rintro ⟨s, hs⟩
        refine ⟨roots.mem_keys.mpr ⟨s, hs⟩, fun hr => hlive r s hs ?_⟩
        rw [← hdead3]
        exact hr
    have hunion : {r | ∃ s, e1.rootStatus n r = some s} ∪
        {r | r ∈ incoming.keys ∧ r ∉ e3.inactiveDirtyRoots} = {r | ∃ s, roots.get? r = some s} := by
      ext r
      constructor
      · rintro (⟨s, hs⟩ | ⟨hr, hd⟩)
        · obtain ⟨s', hs', -⟩ := hmerged.kept r s hs
          exact ⟨s', hs'⟩
        · obtain ⟨p, hp, rfl⟩ := List.mem_map.mp hr
          obtain ⟨s', hs', -⟩ := hmerged.merged p hp (fun hd' => hd (by
            rw [← hdead3] at hd'
            exact hd'))
          exact ⟨s', hs'⟩
      · rintro ⟨s, hs⟩
        rcases hmerged.origin r s hs with ⟨s0, hs0⟩ | ⟨hd, p, hp, rfl⟩
        · exact .inl ⟨s0, hs0⟩
        · refine .inr ⟨List.mem_map.mpr ⟨p, hp, rfl⟩, fun hr => hd ?_⟩
          rw [← hdead3]
          exact hr
    obtain ⟨hch6, hfr6⟩ := mergeFrontier_spec (hframe3.graphInv hg) hF3 hkeys hunion p4 hp4 hok5
    generalize addFrontierRoots incoming.keys p4.2 p4.1.count = p6 at hch6 hfr6 hok ⊢
    by_cases hex6 : p6.1.frontierBudgetExceeded = true
    · rw [if_pos hex6] at hok
      simp [hex6] at hok
    rw [if_neg hex6] at hok ⊢
    have hok6 : p6.1.frontierBudgetExceeded = false := by simpa using hex6
    have hF6 := hfr6 hok6
    obtain ⟨-, w6, hw6⟩ := hch6.within hok6
    have hch8 := (count_charged { p6.1 with
      activeFrontiers := p6.1.activeFrontiers.set n p6.2 }).trans (updateDirtyState_charged _ n)
    rw [hw6] at hch8 hok ⊢
    have hI8 := Indexed.charged (hI3.store (n := n) (F := p6.2) (fun _ => by
      simp only [hst3, if_true]
      exact hF6)) (charged_work _ w6) hok3
    generalize updateDirtyState _ n = e8 at hch8 hok ⊢
    have hmf8 := hch8.mergeFrame hok
    have hst8 : ∀ m r, e8.rootStatus m r = if m = n then roots.get? r else e1.rootStatus m r :=
      fun m r => (congrFun (congrFun hmf8.rootStatus_eq m) r).trans (hst3 m r)
    have hdead8 : e8.dead = e1.dead := hmf8.dead_eq.trans hdead3
    have hI9 := hI8.charged hch8 hok
    rw [← hdead8] at hI9
    have hself : ∀ r, r ∉ e.dead → e1.rootStatus n r = e.rootStatus n r := hcomp.active
    refine ⟨hoke, hI9, ⟨?_, ?_, ?_⟩, ?_, ?_, ?_, ?_⟩
    · have hstored : Frame e3 { e3 with
          activeFrontiers := e3.activeFrontiers.set n p6.2
          frontierWorkUsed := w6 } := ⟨rfl, rfl, rfl, rfl, rfl, rfl, rfl, rfl⟩
      exact hframe3.trans (hstored.trans hmf8.frame)
    · rw [hdead8]
      exact hcomp.grows.dead_sub
    · intro m r s hr hs
      rw [hst8]
      split_ifs with hm
      · subst hm
        exact hmerged.kept r s ((hself r hr).trans hs)
      · exact ⟨s, (hcomp.others m hm r).trans hs, le_rfl⟩
    · intro m hm x
      rw [hst8, if_neg hm]
      exact hcomp.others m hm x
    · intro p hp hp'
      rw [hst8, if_pos rfl]
      exact hmerged.merged p hp fun hd => hp' (hcomp.grows.dead_sub hd)
    · intro x s hs
      rw [hst8, if_pos rfl] at hs
      rcases hmerged.origin x s hs with ⟨s0, hs0⟩ | ⟨-, p, hp, hpx⟩
      · exact .inl ⟨s0, hcomp.removed x s0 hs0⟩
      · exact .inr ⟨p, hp, hpx⟩
    · intro _
      obtain ⟨r, t, ht, hlt⟩ := (hraised rfl).resolve_left Bool.false_ne_true
      refine ⟨r, t, ht, ?_⟩
      rw [hst8, if_pos rfl, ← hself r (h.dirty_alive r t ht)]
      exact hlt

end IncrementalFrontierEngine

end Premise.FrontierEngine
