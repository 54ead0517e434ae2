import Premise.Reference.Proofs.StateProofs

/-!
# Proofs: marks without expiry

Marking roots changes their own statuses and nothing else; the statuses that follow are the greatest of
the own statuses of a memory and of those that it depends on, directly or through others.
-/

namespace Premise.Reference

open Collections Control Premise.Graph Js FrontierEngine
  Protocol.V1 Relation

variable {r : StateRecord} {id : String}

namespace MemoryStateStore

variable {s s' : MemoryStateStore} {clock : Option Int} {roots : List String} {status : MemoryStatus}

def WithoutExpiry (s : MemoryStateStore) : Prop :=
  ∀ id r, s.records.get? id = some r → r.isTtl = false

theorem Updated.withoutExpiry (h : Updated s s') (hfree : s.WithoutExpiry) : s'.WithoutExpiry := by
  intro id r' hget
  obtain ⟨r, hold, henvelope, -⟩ := h.record_of hget
  have httl := hfree id r hold
  unfold StateRecord.isTtl at httl ⊢
  rw [henvelope]
  exact httl

theorem Updated.dependsOn (h : Updated s s') (id : String) : s'.dependsOn id = s.dependsOn id := by
  unfold MemoryStateStore.dependsOn
  cases hget : s.records.get? id with
  | none => rw [h.unknown id hget]
  | some r =>
    obtain ⟨r', hget', henvelope, -⟩ := h.records id r hget
    rw [hget', Option.map_some, Option.map_some, henvelope]

theorem own_eq_baseStatus (h : RecordInv r) (hfree : r.isTtl = false) : r.own = r.baseStatus := by
  have hflag : r.ttlExpired = false := by
    by_contra hflag
    rw [Bool.not_eq_false] at hflag
    rw [h.ttl hflag] at hfree
    cases hfree
  unfold StateRecord.own
  by_cases hdirect : r.directlyInvalid = true
  · rw [if_pos hdirect, h.invalid.mp hdirect]
  · rw [if_neg hdirect, hflag, if_neg (fun hboth => Bool.false_ne_true hboth.1)]

theorem ownStatus_eq (hget : s.records.get? id = some r) : s.ownStatus id = r.own := by
  unfold ownStatus
  rw [hget]
  rfl

theorem dependencyStatus_eq (hget : s.records.get? id = some r) : s.dependencyStatus id = r.status := by
  unfold dependencyStatus
  rw [hget]
  rfl

theorem dependencyStatus_of_none (hget : s.records.get? id = none) : s.dependencyStatus id = .unknown := by
  unfold dependencyStatus
  rw [hget]
  rfl

theorem stateOf_eq_some {state : MemoryState} : s.stateOf id = some state ↔
      ∃ r, s.records.get? id = some r ∧ state = ⟨id, r.envelope, r.status⟩ := by
  unfold stateOf
  rw [Option.map_eq_some_iff]
  exact exists_congr fun r => and_congr_right (fun _ => eq_comm)

theorem status_le_iff (h : Sound s) (hid : id ∈ s.records.keys) {b : MemoryStatus} :
    s.dependencyStatus id ≤ b ↔ ∀ c, s.graph.Reaches id c → s.ownStatus c ≤ b := by
  rw [(aggregate_cached h hid).le_iff]
  have hreach : ∀ c, ReflTransGen (fun n d => d ∈ s.dependsOn n) id c ↔ s.graph.Reaches id c :=
    fun c => ⟨ReflTransGen.mono (fun n d hd => (mem_dependsOn h.framed n d).mp hd) id c,
      ReflTransGen.mono (fun n d hd => (mem_dependsOn h.framed n d).mpr hd) id c⟩
  simp only [hreach]

theorem own_le_status (h : Sound s) (hid : id ∈ s.records.keys) : s.ownStatus id ≤ s.dependencyStatus id :=
  (status_le_iff h hid).mp le_rfl id ReflTransGen.refl

theorem status_le_of_reaches (h : Sound s) {c : String} (hid : id ∈ s.records.keys) (hc : c ∈ s.records.keys)
    (hreach : s.graph.Reaches id c) :
    s.dependencyStatus c ≤ s.dependencyStatus id :=
  (status_le_iff h hc).mpr (fun _ hrest => (status_le_iff h hid).mp le_rfl _ (hreach.trans hrest))

/-! ## Marking -/

/-- What marking does to the statuses. -/
structure Marking (s s' : MemoryStateStore) (roots : List String) (status : MemoryStatus)
    (changes : List StatusChange) : Prop where
  sound : Sound s'
  updated : Updated s s'
  known : ∀ root ∈ roots, root ∈ s.records.keys
  own : s'.ownStatus = ReferenceProtocol.markedOwn s roots status
  change : ∀ c ∈ changes, c.state.memoryId ∈ s.records.keys ∧
    c.previousStatus = s.dependencyStatus c.state.memoryId ∧
    c.state.status = s'.dependencyStatus c.state.memoryId ∧
    ∃ root ∈ roots, s'.graph.Reaches c.state.memoryId root
  root : ∀ root ∈ roots, ∃ c ∈ changes, c.state.memoryId = root
  changed : ∀ id, s'.dependencyStatus id ≠ s.dependencyStatus id →
    ∃ c ∈ changes, c.state.memoryId = id

theorem own_markedRecord (hget : s.records.get? id = some r) (h : RecordInv r) (hfree : r.isTtl = false)
    (hid : id ∈ roots) :
    (markedRecord status r).own = ReferenceProtocol.markedOwn s roots status id := by
  rw [own_eq_baseStatus (recordInv_markedRecord status h) hfree]
  unfold ReferenceProtocol.markedOwn markedRecord nextStatus
  rw [ownStatus_eq hget, own_eq_baseStatus h hfree]
  by_cases hinvalid : r.baseStatus = .invalid
  · have hdirect := h.invalid.mpr hinvalid
    rw [if_neg (fun hboth : id ∈ roots ∧ r.baseStatus ≠ .invalid => hboth.2 hinvalid), hinvalid]
    split_ifs with hboth
    · rfl
    · exact not_not.mp fun hne => hboth ⟨hdirect, hne⟩
  · have hdirect : ¬ r.directlyInvalid = true := fun hdirect => hinvalid (h.invalid.mp hdirect)
    rw [if_pos (⟨hid, hinvalid⟩ : id ∈ roots ∧ r.baseStatus ≠ .invalid), if_neg (fun hboth => hdirect hboth.1)]

theorem Recomputed.own (hfree : s.WithoutExpiry) {p : String → Prop} (h : Recomputed clock p s s') :
    s'.ownStatus = s.ownStatus := by
  funext id
  by_cases hid : p id
  · cases hget : s.records.get? id with
    | none =>
      unfold ownStatus
      rw [hget, h.updated.unknown id hget]
    | some r =>
      rw [ownStatus_eq (h.inside id hid r hget), ownStatus_eq hget, evaluated_of_not_ttl (hfree id r hget)]
      rfl
  · unfold ownStatus
    rw [h.outside id hid]

theorem Marked.own (h : Sound s) (hfree : s.WithoutExpiry) (hmarked : Marked status roots s s')
    (hknown : ∀ root ∈ roots, root ∈ s.records.keys) :
    s'.ownStatus = ReferenceProtocol.markedOwn s roots status := by
  funext id
  by_cases hid : id ∈ roots
  · obtain ⟨r, hget⟩ := s.records.mem_keys.mp (hknown id hid)
    rw [ownStatus_eq (hmarked.inside id hid r hget)]
    exact own_markedRecord hget (h.framed.records id r hget) (hfree id r hget) hid
  · unfold ReferenceProtocol.markedOwn
    rw [if_neg (fun hboth => hid hboth.1)]
    unfold ownStatus
    rw [hmarked.outside id hid]

theorem markedOwn_unique (s : MemoryStateStore) (roots : List String) (status : MemoryStatus) :
    ReferenceProtocol.markedOwn s (unique roots) status = ReferenceProtocol.markedOwn s roots status := by
  funext id
  unfold ReferenceProtocol.markedOwn
  simp only [mem_unique]

theorem mem_changesOf {affected : OrderedSet String} {c : StatusChange} :
    c ∈ changesOf s s' affected ↔ c.state.memoryId ∈ affected ∧ s'.stateOf c.state.memoryId = some c.state ∧
      ∃ previous, s.stateOf c.state.memoryId = some previous ∧ c.previousStatus = previous.status := by
  unfold changesOf
  rw [List.mem_filterMap]
  constructor
  · rintro ⟨id, hid, hsome⟩
    obtain ⟨state, hstate, hsome⟩ := Option.bind_eq_some_iff.mp hsome
    obtain ⟨previous, hprevious, rfl⟩ := Option.map_eq_some_iff.mp hsome
    obtain ⟨r, -, rfl⟩ := stateOf_eq_some.mp hstate
    exact ⟨mem_sortStrings.mp hid, hstate, previous, hprevious, rfl⟩
  · rintro ⟨hid, hstate, previous, hprevious, heq⟩
    refine ⟨c.state.memoryId, mem_sortStrings.mpr hid, ?_⟩
    rw [hstate, hprevious, Option.bind_some, Option.map_some, ← heq]

/-- What a mark changes, whatever memories expire. -/
structure Propagation (s s' : MemoryStateStore) (roots : List String) (changes : List StatusChange) :
    Prop where
  sound : Sound s'
  updated : Updated s s'
  known : ∀ root ∈ roots, root ∈ s.records.keys
  change : ∀ c ∈ changes, c.state.memoryId ∈ s.records.keys ∧
    c.previousStatus = s.dependencyStatus c.state.memoryId ∧
    c.state.status = s'.dependencyStatus c.state.memoryId ∧
    ∃ root ∈ roots, s'.graph.Reaches c.state.memoryId root
  root : ∀ root ∈ roots, ∃ c ∈ changes, c.state.memoryId = root
  changed : ∀ id, s'.dependencyStatus id ≠ s.dependencyStatus id →
    ∃ c ∈ changes, c.state.memoryId = id

/-- The roots get their base status, and what depends on them is recomputed if it has to be. -/
def Propagates (clock : Option Int) (s s' : MemoryStateStore) (roots : List String)
    (status : MemoryStatus) : Prop :=
  ∃ marked, Marked status (unique roots) s marked ∧
    (Recomputed clock (· ∈ marked.collectDependents (unique roots)) marked s' ∨ s' = marked)

theorem propagation_cases (h : Sound s) (clock : Option Int) (roots : List String)
    (status : MemoryStatus) :
    (∃ err, s.markStatusesWithPrevious clock roots status = (s, .error err) ∧ ∃ root ∈ roots, root ∉ s.records.keys) ∨
    ∃ s' changes, s.markStatusesWithPrevious clock roots status = (s', .ok changes) ∧
      Propagation s s' roots changes ∧ Propagates clock s s' roots status := by
  have hsound := (@effect_mark s clock (fun _ => False) h roots status).sound
  rcases mark_cases h.framed clock roots status with
    ⟨err, heq, hunknown⟩ | ⟨hknown, marked, s', hmarked, heq, hcase⟩
  · exact .inl ⟨err, heq, hunknown⟩
  refine .inr ⟨s', _, heq, ?_, marked, hmarked, hcase.imp id And.left⟩
  rw [heq] at hsound
  have hmem := mem_collectDependents (h.framed.updated hmarked.updated).graph (unique roots)
  obtain ⟨hupdated, houtside⟩ : Updated s s' ∧ ∀ id, id ∉ marked.collectDependents (unique roots) →
        s'.dependencyStatus id = s.dependencyStatus id := by
    rcases hcase with hrecomputed | ⟨rfl, -, -⟩
    · refine ⟨hmarked.updated.trans hrecomputed.updated, fun id hid => ?_⟩
      rw [dependencyStatus_congr (hrecomputed.outside id hid), hmarked.dependencyStatus]
    · exact ⟨hmarked.updated, fun id _ => hmarked.dependencyStatus id⟩
  have hgraph : marked.graph = s'.graph := hmarked.updated.graph.trans hupdated.graph.symm
  -- Every affected memory is among the changes.
  have hchange : ∀ id ∈ marked.collectDependents (unique roots), id ∈ s.records.keys →
      ∃ c ∈ changesOf s s' (marked.collectDependents (unique roots)), c.state.memoryId = id := by
    intro id hid hkey
    obtain ⟨r, hget⟩ := s.records.mem_keys.mp hkey
    obtain ⟨r', hget', -⟩ := hupdated.records id r hget
    refine ⟨⟨⟨id, r'.envelope, r'.status⟩, r.status⟩, mem_changesOf.mpr ⟨hid, ?_, ?_⟩, rfl⟩
    · exact stateOf_eq_some.mpr ⟨r', hget', rfl⟩
    · exact ⟨_, stateOf_eq_some.mpr ⟨r, hget, rfl⟩, rfl⟩
  refine ⟨hsound, hupdated, hknown, ?_, ?_, ?_⟩
  · intro c hc
    obtain ⟨hid, hstate, previous, hprevious, heq⟩ := mem_changesOf.mp hc
    obtain ⟨r, hget, rfl⟩ := stateOf_eq_some.mp hprevious
    obtain ⟨r', hget', hstate'⟩ := stateOf_eq_some.mp hstate
    obtain ⟨root, hroot, hreach⟩ := (hmem _).mp hid
    refine ⟨s.records.mem_keys_of_get? hget, ?_, ?_, root, mem_unique.mp hroot, ?_⟩
    · rw [heq, dependencyStatus_eq hget]
    · rw [dependencyStatus_eq hget']
      exact congrArg MemoryState.status hstate'
    · rw [← hgraph]
      exact hreach
  · intro root hroot
    refine hchange root ((hmem root).mpr ⟨root, mem_unique.mpr hroot, ReflTransGen.refl⟩) ?_
    exact hknown root hroot
  · intro id hne
    have hid : id ∈ marked.collectDependents (unique roots) := by
      by_contra hnot
      exact hne (houtside id hnot)
    refine hchange id hid ?_
    by_contra hkey
    have hnone := s.records.get?_eq_none_iff.mpr hkey
    rw [dependencyStatus_of_none hnone, dependencyStatus_of_none (hupdated.unknown id hnone)] at hne
    exact hne rfl

theorem marking_cases (h : Sound s) (hfree : s.WithoutExpiry) (clock : Option Int)
    (roots : List String) (status : MemoryStatus) :
    (∃ err, s.markStatusesWithPrevious clock roots status = (s, .error err)) ∨
    ∃ s' changes, s.markStatusesWithPrevious clock roots status = (s', .ok changes) ∧
      Marking s s' roots status changes := by
  rcases propagation_cases h clock roots status with
    ⟨err, heq, -⟩ | ⟨s', changes, heq, hpropagation, marked, hmarked, hcase⟩
  · exact .inl ⟨err, heq⟩
  have hroots : ∀ root ∈ unique roots, root ∈ s.records.keys :=
    fun root hroot => hpropagation.known root (mem_unique.mp hroot)
  have hown := hmarked.own h hfree hroots
  have hsame : s'.ownStatus = marked.ownStatus := by
    rcases hcase with hrecomputed | rfl
    · exact hrecomputed.own (hmarked.updated.withoutExpiry hfree)
    · rfl
  exact .inr ⟨s', changes, heq,
    { sound := hpropagation.sound
      updated := hpropagation.updated
      known := hpropagation.known
      own := by rw [hsame, hown, markedOwn_unique]
      change := hpropagation.change
      root := hpropagation.root
      changed := hpropagation.changed }⟩

variable {changes : List StatusChange}

theorem Marking.mem_keys (h : Marking s s' roots status changes) (id : String) :
    id ∈ s'.records.keys ↔ id ∈ s.records.keys := h.updated.mem_keys id

theorem Marking.le_status (h : Marking s s' roots status changes) {c : StatusChange}
    (hc : c ∈ changes) : status ≤ c.state.status := by
  obtain ⟨hkey, -, hstatus, root, hroot, hreach⟩ := h.change c hc
  rw [hstatus]
  have hown : status ≤ s'.ownStatus root := by
    rw [h.own]
    unfold ReferenceProtocol.markedOwn
    split_ifs with hboth
    · exact le_rfl
    · have hinvalid := not_not.mp (fun hne => hboth ⟨hroot, hne⟩)
      rw [hinvalid]
      cases status <;> decide
  refine hown.trans ((own_le_status h.sound ((h.mem_keys root).mpr (h.known root hroot))).trans ?_)
  exact status_le_of_reaches h.sound ((h.mem_keys _).mpr hkey) ((h.mem_keys root).mpr (h.known root hroot)) hreach

theorem markedOwn_fresh_le (s : MemoryStateStore) (roots : List String) (id : String) :
    ReferenceProtocol.markedOwn s roots .fresh id ≤ s.ownStatus id := by
  unfold ReferenceProtocol.markedOwn
  split_ifs
  · cases s.ownStatus id <;> decide
  · exact le_rfl

theorem Marking.status_le (h : Marking s s' roots .fresh changes) (hsound : Sound s) (hid : id ∈ s.records.keys) :
    s'.dependencyStatus id ≤ s.dependencyStatus id := by
  rw [status_le_iff h.sound ((h.mem_keys id).mpr hid)]
  intro c hreach
  rw [h.own]
  rw [h.updated.graph] at hreach
  exact (markedOwn_fresh_le s roots c).trans ((status_le_iff hsound hid).mp le_rfl c hreach)

theorem Marking.invalid (h : Marking s s' roots status changes) (hsound : Sound s) (hid : id ∈ s.records.keys)
    (hinvalid : s.dependencyStatus id = .invalid) :
    s'.dependencyStatus id = .invalid := by
  have hlt : ∀ t : MemoryStatus, t ≠ .invalid ↔ t ≤ .unknown := by
    intro t
    cases t <;> decide
  by_contra hne
  rw [← ne_eq, hlt, status_le_iff h.sound ((h.mem_keys id).mpr hid), h.own, h.updated.graph] at hne
  have hle : s.dependencyStatus id ≤ .unknown := by
    rw [status_le_iff hsound hid]
    intro c hreach
    rw [← hlt]
    intro hown
    have hc := hne c hreach
    unfold ReferenceProtocol.markedOwn at hc
    rw [if_neg (fun hboth => hboth.2 hown), hown] at hc
    exact absurd hc (by decide)
  exact (hlt _).mpr hle hinvalid

theorem Marking.status_eq {root : String} (h : Marking s s' [root] .fresh changes) (hsound : Sound s)
    (hroot : s'.dependencyStatus root = s.dependencyStatus root) (hid : id ∈ s.records.keys) :
    s'.dependencyStatus id = s.dependencyStatus id := by
  have hknown := h.known root (List.mem_singleton_self root)
  have hid' := (h.mem_keys id).mpr hid
  refine le_antisymm (h.status_le hsound hid) ((status_le_iff hsound hid).mpr (fun c hreach => ?_))
  rw [← h.updated.graph] at hreach
  by_cases hc : c = root
  · subst hc
    refine (own_le_status hsound hknown).trans ?_
    rw [← hroot]
    exact status_le_of_reaches h.sound hid' ((h.mem_keys c).mpr hknown) hreach
  · have hown : s'.ownStatus c = s.ownStatus c := by
      rw [h.own]
      unfold ReferenceProtocol.markedOwn
      exact if_neg fun hboth => hc (List.mem_singleton.mp hboth.1)
    rw [← hown]
    exact (status_le_iff h.sound hid').mp le_rfl c hreach

end MemoryStateStore

/-!
# Proofs: marks and expiry

Expiry moves the status of a memory alone between `FRESH` and `STALE`, so that whether it is `UNKNOWN` or
`INVALID` is decided by the base status, which a mark sets. A mark as `FRESH` therefore makes no memory
`UNKNOWN`.
-/

namespace MemoryStateStore

variable {s s' : MemoryStateStore} {clock : Option Int} {roots : List String} {status : MemoryStatus}

theorem own_eq_iff {r : StateRecord} (h : RecordInv r) (hstatus : .unknown ≤ status) :
    r.own = status ↔ r.baseStatus = status := by
  unfold StateRecord.own
  split_ifs with hdirect hexpired
  · rw [h.invalid.mp hdirect]
  · rw [hexpired.2]
    cases status with
    | fresh | stale => exact absurd hstatus (by decide)
    | unknown | invalid => decide
  · rfl

theorem stale_le_own {r : StateRecord} (hbase : .stale ≤ r.baseStatus) : .stale ≤ r.own := by
  unfold StateRecord.own
  split_ifs
  · decide
  · decide
  · exact hbase

def baseStatusOf (s : MemoryStateStore) (id : String) : MemoryStatus :=
  ((s.records.get? id).map StateRecord.baseStatus).getD .unknown

theorem baseStatusOf_eq {id : String} {r : StateRecord} (hget : s.records.get? id = some r) :
    s.baseStatusOf id = r.baseStatus := by
  unfold baseStatusOf
  rw [hget]
  rfl

theorem baseStatusOf_congr {id : String} (h : s'.records.get? id = s.records.get? id) :
    s'.baseStatusOf id = s.baseStatusOf id := by
  unfold baseStatusOf
  rw [h]

theorem ownStatus_eq_iff (h : Framed s) (hstatus : .unknown ≤ status) (id : String) :
    s.ownStatus id = status ↔ s.baseStatusOf id = status := by
  cases hget : s.records.get? id with
  | none =>
    unfold ownStatus baseStatusOf
    rw [hget]
    exact Iff.rfl
  | some r =>
    rw [ownStatus_eq hget, baseStatusOf_eq hget]
    exact own_eq_iff (h.records id r hget) hstatus

theorem baseStatus_evaluated (clock : Option Int) (r : StateRecord) : (evaluated clock r).baseStatus = r.baseStatus := by
  unfold evaluated
  split_ifs
  · rfl
  · rfl

theorem Recomputed.baseStatusOf {p : String → Prop} (h : Recomputed clock p s s') (id : String) :
    s'.baseStatusOf id = s.baseStatusOf id := by
  by_cases hid : p id
  · cases hget : s.records.get? id with
    | none => exact baseStatusOf_congr ((h.updated.unknown id hget).trans hget.symm)
    | some r =>
      rw [baseStatusOf_eq hget, baseStatusOf_eq (h.inside id hid r hget)]
      exact baseStatus_evaluated clock r
  · exact baseStatusOf_congr (h.outside id hid)

theorem Propagates.baseStatusOf (h : Framed s) (hmark : Propagates clock s s' roots status)
    (hknown : ∀ root ∈ roots, root ∈ s.records.keys) (id : String) :
    s'.baseStatusOf id =
      if id ∈ roots ∧ s.baseStatusOf id ≠ .invalid then status else s.baseStatusOf id := by
  obtain ⟨marked, hmarked, hcase⟩ := hmark
  have hsame : s'.baseStatusOf id = marked.baseStatusOf id := by
    rcases hcase with hrecomputed | rfl
    · exact hrecomputed.baseStatusOf id
    · rfl
  rw [hsame]
  by_cases hid : id ∈ roots
  · obtain ⟨r, hget⟩ := s.records.mem_keys.mp (hknown id hid)
    have hinv := h.records id r hget
    rw [baseStatusOf_eq (hmarked.inside id (mem_unique.mpr hid) r hget), baseStatusOf_eq hget]
    show nextStatus r status = _
    by_cases hdirect : r.directlyInvalid = true
    · have hbase := hinv.invalid.mp hdirect
      have hnext : nextStatus r status = .invalid := by
        unfold nextStatus
        split_ifs with hboth
        · rfl
        · by_contra hne
          exact hboth ⟨hdirect, hne⟩
      rw [hnext, if_neg (fun hboth => hboth.2 hbase), hbase]
    · have hnext : nextStatus r status = status := if_neg (fun hboth => hdirect hboth.1)
      rw [hnext, if_pos ⟨hid, fun hbase => hdirect (hinv.invalid.mpr hbase)⟩]
  · rw [if_neg (fun hboth => hid hboth.1)]
    exact baseStatusOf_congr (hmarked.outside id (fun hmem => hid (mem_unique.mp hmem)))

section Marked

variable {changes : List StatusChange}

theorem Propagation.stale_le (h : Propagation s s' roots changes) (hsound : Sound s)
    (hmark : Propagates clock s s' roots status) (hstatus : .stale ≤ status) {c : StatusChange}
    (hc : c ∈ changes) : .stale ≤ c.state.status := by
  obtain ⟨hkey, -, heq, root, hroot, hreach⟩ := h.change c hc
  have hkey' := (h.updated.mem_keys _).mpr hkey
  have hroot' := (h.updated.mem_keys _).mpr (h.known root hroot)
  obtain ⟨r, hget⟩ := s'.records.mem_keys.mp hroot'
  have hbase : .stale ≤ r.baseStatus := by
    rw [← baseStatusOf_eq hget, hmark.baseStatusOf hsound.framed h.known]
    split_ifs with hcase
    · exact hstatus
    · rw [not_and, not_not] at hcase
      rw [hcase hroot]
      decide
  rw [heq]
  calc MemoryStatus.stale ≤ r.own := stale_le_own hbase
    _ = s'.ownStatus root := (ownStatus_eq hget).symm
    _ ≤ s'.dependencyStatus root := own_le_status h.sound hroot'
    _ ≤ s'.dependencyStatus c.state.memoryId := status_le_of_reaches h.sound hkey' hroot' hreach

theorem le_unknown_iff (t : MemoryStatus) : t ≤ .unknown ↔ t ≠ .invalid := by
  cases t <;> decide

theorem lt_unknown_iff (t : MemoryStatus) : t ≤ .stale ↔ t ≠ .unknown ∧ t ≠ .invalid := by
  cases t <;> decide

theorem status_eq_unknown_iff (h : Sound s) {id : String} (hid : id ∈ s.records.keys) :
    s.dependencyStatus id = .unknown ↔ (∃ c, s.graph.Reaches id c ∧ s.ownStatus c = .unknown) ∧
      ∀ c, s.graph.Reaches id c → s.ownStatus c ≠ .invalid := by
  have hinvalid : s.dependencyStatus id ≠ .invalid ↔ ∀ c, s.graph.Reaches id c → s.ownStatus c ≠ .invalid := by
    rw [← le_unknown_iff, status_le_iff h hid]
    exact forall_congr' fun c => imp_congr_right (fun _ => le_unknown_iff _)
  rw [← hinvalid]
  constructor
  · intro heq
    refine ⟨?_, by rw [heq]; decide⟩
    by_contra hnone
    push Not at hnone
    have hle : s.dependencyStatus id ≤ .stale := by
      rw [status_le_iff h hid]
      intro c hreach
      rw [lt_unknown_iff]
      refine ⟨hnone c hreach, ?_⟩
      exact hinvalid.mp (by rw [heq]; decide) c hreach
    rw [heq] at hle
    exact absurd hle (by decide)
  · rintro ⟨⟨c, hreach, hc⟩, hne⟩
    by_contra hother
    have hle := (lt_unknown_iff _).mpr ⟨hother, hne⟩
    have hown := (status_le_iff h hid).mp hle c hreach
    rw [hc] at hown
    exact absurd hown (by decide)

theorem Propagation.unknown {root : String} (h : Propagation s s' [root] changes) (hsound : Sound s)
    (hmark : Propagates clock s s' [root] .fresh) {c : StatusChange} (hc : c ∈ changes)
    (hunknown : c.state.status = .unknown) : c.previousStatus = .unknown ∧
      (c.state.memoryId = root → ReferenceProtocol.DependsOnUnknown s root) := by
  obtain ⟨hkey, hprevious, heq, -⟩ := h.change c hc
  have hgraph := h.updated.graph
  have hbase := hmark.baseStatusOf hsound.framed h.known
  rw [heq, status_eq_unknown_iff h.sound ((h.updated.mem_keys _).mpr hkey), hgraph] at hunknown
  obtain ⟨⟨u, hreach, hown⟩, hnone⟩ := hunknown
  -- The memories that are `UNKNOWN` or `INVALID` themselves were so before.
  rw [ownStatus_eq_iff h.sound.framed le_rfl, hbase] at hown
  have hu : u ≠ root ∧ s.ownStatus u = .unknown := by
    rw [ownStatus_eq_iff hsound.framed le_rfl]
    split_ifs at hown with hcase
    refine ⟨?_, hown⟩
    rintro rfl
    exact hcase ⟨List.mem_singleton_self _, by rw [hown]; decide⟩
  have hvalid : ∀ c', s.graph.Reaches c.state.memoryId c' → s.ownStatus c' ≠ .invalid := by
    intro c' hreach' hinvalid
    refine hnone c' hreach' ?_
    rw [ownStatus_eq_iff hsound.framed (by decide)] at hinvalid
    rw [ownStatus_eq_iff h.sound.framed (by decide), hbase, if_neg (fun hboth => hboth.2 hinvalid)]
    exact hinvalid
  refine ⟨?_, ?_⟩
  · rw [hprevious, status_eq_unknown_iff hsound hkey]
    exact ⟨⟨u, hreach, hu.2⟩, hvalid⟩
  · rintro rfl
    obtain rfl | ⟨d, hdep, hrest⟩ := hreach.cases_head
    · exact absurd rfl hu.1
    refine ⟨hvalid _ ReflTransGen.refl, ⟨d, (mem_dependsOn hsound.framed _ d).mpr hdep, ?_⟩, ?_⟩
    · rw [status_eq_unknown_iff hsound (known_of_dep hsound.framed hdep)]
      exact ⟨⟨u, hrest, hu.2⟩, fun c' hreach' => hvalid c' (ReflTransGen.head hdep hreach')⟩
    · intro d' hd' hinvalid
      rw [mem_dependsOn hsound.framed] at hd'
      have hle := (status_le_iff hsound (known_of_dep hsound.framed hd')).mpr
        (fun c' hreach' => (le_unknown_iff _).mpr (hvalid c' (ReflTransGen.head hd' hreach')))
      rw [hinvalid] at hle
      exact absurd hle (by decide)

end Marked

end MemoryStateStore

end Premise.Reference
