import Premise.Postgres.EventLog

/-!
# Proofs: the replay of events

Below the checkpoint of the consumer, and below the last row of the batch that is being handled, every
event of the tenant is committed, and has been delivered or is about to be. A row that is appended later
has a larger sequence number.
-/

namespace Premise.Postgres

open Control Js

variable {E : Type} {tenantId : Option String}

namespace EventLog

variable {log log' : EventLog E}

/-- The rows stand in the order of their sequence numbers, which have all been taken. -/
structure Sorted (log : EventLog E) : Prop where
  rows : log.rows.Pairwise (fun row row' => row.sequence < row'.sequence)
  taken : ∀ row ∈ log.rows, row.sequence < log.nextSequence

/-- What writers can do to the log: rows that are committed stay, and a new row has the next sequence
    number and is not committed. -/
structure Extends (log log' : EventLog E) : Prop where
  sorted : log.Sorted → log'.Sorted
  next : log.nextSequence ≤ log'.nextSequence
  keeps : ∀ row ∈ log.rows, row.state = .committed → row ∈ log'.rows
  origin : ∀ row' ∈ log'.rows, (∃ row ∈ log.rows, row'.sequence = row.sequence ∧
      row'.event = row.event ∧ (row.state = .committed → row' = row)) ∨
    (row'.sequence = log.nextSequence ∧ row'.state ≠ .committed)

theorem Sorted.initial : ({} : EventLog E).Sorted := ⟨List.Pairwise.nil, nofun⟩

theorem extends_append (log : EventLog E) (tx : Nat) (event : AppendedEvent E) :
    log.Extends (log.appendEventOn tx event) where
  sorted := by
    intro h
    refine ⟨List.pairwise_append.mpr ⟨h.rows, List.pairwise_singleton _ _, ?_⟩, ?_⟩
    · intro row hrow new hnew
      obtain rfl := List.mem_singleton.mp hnew
      exact h.taken row hrow
    · intro row hrow
      rcases List.mem_append.mp hrow with hold | hnew
      · exact Nat.lt_succ_of_lt (h.taken row hold)
      · obtain rfl := List.mem_singleton.mp hnew
        exact Nat.lt_succ_self _
  next := Nat.le_succ _
  keeps := fun row hrow _ => List.mem_append_left _ hrow
  origin := by
    intro row hrow
    rcases List.mem_append.mp hrow with hold | hnew
    · exact .inl ⟨row, hold, rfl, rfl, fun _ => rfl⟩
    · obtain rfl := List.mem_singleton.mp hnew
      exact .inr ⟨rfl, nofun⟩

theorem extends_filterMap (log : EventLog E) (f : EventRow E → Option (EventRow E))
    (hf : ∀ row row', f row = some row' → row'.sequence = row.sequence ∧ row'.event = row.event)
    (hcommitted : ∀ row, row.state = .committed → f row = some row) :
    log.Extends { log with rows := log.rows.filterMap f } where
  sorted := by
    intro h
    refine ⟨List.pairwise_filterMap.mpr (h.rows.imp ?_), ?_⟩
    · intro row row' hlt b hb b' hb'
      rw [(hf row b hb).1, (hf row' b' hb').1]
      exact hlt
    · intro row' hrow'
      obtain ⟨row, hrow, hsome⟩ := List.mem_filterMap.mp hrow'
      rw [(hf row row' hsome).1]
      exact h.taken row hrow
  next := le_rfl
  keeps := fun row hrow hstate => List.mem_filterMap.mpr ⟨row, hrow, hcommitted row hstate⟩
  origin := by
    intro row' hrow'
    obtain ⟨row, hrow, hsome⟩ := List.mem_filterMap.mp hrow'
    refine .inl ⟨row, hrow, (hf row row' hsome).1, (hf row row' hsome).2, fun hstate => ?_⟩
    exact Option.some.inj (hsome.symm.trans (hcommitted row hstate))

theorem extends_resolve (log : EventLog E) (tx : Nat) (state? : Option RowState) : log.Extends (log.resolve tx state?) := by
  refine extends_filterMap log _ ?_ ?_
  · intro row row' h
    split_ifs at h
    · obtain ⟨state, -, rfl⟩ := Option.map_eq_some_iff.mp h
      exact ⟨rfl, rfl⟩
    · cases h
      exact ⟨rfl, rfl⟩
  · intro row hstate
    rw [if_neg (by rw [hstate]; nofun)]

theorem extends_commit (log : EventLog E) (tx : Nat) : log.Extends (log.commit tx) := by
  unfold commit
  rw [← List.filterMap_eq_map]
  refine extends_filterMap log _ ?_ ?_
  · intro row row' h
    cases h
    dsimp only [Function.comp]
    split_ifs <;> exact ⟨rfl, rfl⟩
  · intro row hstate
    dsimp only [Function.comp]
    rw [if_neg (by rw [hstate]; nofun)]

theorem extends_abort (log : EventLog E) (tx : Nat) : log.Extends (log.abort tx) := by
  unfold abort
  rw [← List.filterMap_eq_filter]
  refine extends_filterMap log _ ?_ ?_
  · intro row row' h
    unfold Option.guard at h
    split_ifs at h
    cases h
    exact ⟨rfl, rfl⟩
  · intro row hstate
    unfold Option.guard
    have hkept : decide (row.state.writer ≠ some tx) = true := by
      rw [hstate]
      rfl
    exact if_pos hkept

end EventLog

theorem EventLog.extends_insert [DecidableEq E] {log log' : EventLog E} {tx : Nat} {row : EventRow E}
    (h : log.insert tx row = .stored log') : log.Extends log' := by
  unfold EventLog.insert at h
  cases hkey : log.collision row.event.sameKey with
  | some other =>
    rw [hkey] at h
    dsimp only at h
    split_ifs at h
    obtain rfl := InsertOutcome.stored.inj h
    exact log.extends_resolve tx none
  | none =>
    rw [hkey] at h
    cases hid : log.collision row.event.sameId with
    | some other =>
      rw [hid] at h
      dsimp only at h
      split_ifs at h
    | none =>
      rw [hid] at h
      obtain rfl := InsertOutcome.stored.inj h
      exact log.extends_resolve tx _

theorem extends_of_writerStep [DecidableEq E] {log log' : EventLog E} {i : EventStep E}
    (h : EventStore.writerStep log i = some log') : log.Extends log' := by
  cases i with
  | append tx event =>
    simp only [EventStore.writerStep] at h
    split_ifs at h
    cases h
    exact log.extends_append tx event
  | insert tx =>
    simp only [EventStore.writerStep] at h
    cases hrow : log.insertingRow tx with
    | none =>
      rw [hrow] at h
      cases h
    | some row =>
      rw [hrow] at h
      dsimp only at h
      cases houtcome : log.insert tx row with
      | waits =>
        rw [houtcome] at h
        cases h
      | stored stored =>
        rw [houtcome] at h
        cases h
        exact EventLog.extends_insert houtcome
      | throws =>
        rw [houtcome] at h
        cases h
        exact log.extends_abort tx
  | commit tx =>
    simp only [EventStore.writerStep] at h
    split_ifs at h
    cases h
    exact log.extends_commit tx
  | abort tx =>
    cases h
    exact log.extends_abort tx
  | replay | read | handle | fail => cases h

/-! ## Steps -/

namespace EventStore

variable {s s' : EventStore E}

/-- What the steps do. -/
inductive Moves (tenantId : Option String) (s : EventStore E) : EventStep E → EventStore E → Prop
  | write {i : EventStep E} {log : EventLog E} : s.log.Extends log → (∀ j, i ≠ .fail j) →
      Moves tenantId s i { s with log := log }
  | replay (options : PostgresReplayOptions) : Moves tenantId s (.replay options) (s.replay options)
  | readNone {i : Nat} {call : ReplayCall E} : s.calls[i]? = some call → call.phase = .ready →
      s.calls.any ReplayCall.handling = false → s.batch tenantId call = [] →
      Moves tenantId s (.read i) { s.setCall i { call with phase := .returned call.processed } with
        checkpoint := some (s.checkpointOf call)
        batches := s.batches + 1 }
  | readSome {i : Nat} {call : ReplayCall E} {row : EventRow E} {rows : List (EventRow E)} :
      s.calls[i]? = some call → call.phase = .ready → s.calls.any ReplayCall.handling = false →
      s.batch tenantId call = row :: rows →
      Moves tenantId s (.read i)
        (s.setCall i { call with phase := .handling (rows.length + 1) (row :: rows) })
  | deliver {i : Nat} {call : ReplayCall E} {count : Nat} {row next : EventRow E}
      {rows : List (EventRow E)} : s.calls[i]? = some call →
      call.phase = .handling count (row :: next :: rows) →
      Moves tenantId s (.handle i)
        { s.setCall i { call with phase := .handling count (next :: rows) } with
          delivered := s.delivered ++ [(i, row.sequence)] }
  | finish {i : Nat} {call : ReplayCall E} {count : Nat} {row : EventRow E} :
      s.calls[i]? = some call → call.phase = .handling count [row] →
      Moves tenantId s (.handle i)
        { s.setCall i { call with
            phase := .ready
            processed := call.processed + count
            firstBatch := false } with
          checkpoint := some row.sequence
          delivered := s.delivered ++ [(i, row.sequence)]
          batches := s.batches + 1 }
  | giveUp {i : EventStep E} {j : Nat} {call : ReplayCall E} {count : Nat} {rows : List (EventRow E)} :
      s.calls[j]? = some call → call.phase = .handling count rows →
      (i = .fail j ∨ ∃ row ∈ rows, ¬ (row.sequence : Int) ≤ maxSafeInteger) →
      Moves tenantId s i (s.setCall j { call with phase := .threw })

theorem moves_of_step [DecidableEq E] {i : EventStep E} (h : s.step tenantId i = some s') : Moves tenantId s i s' := by
  unfold step at h
  cases hwriter : writerStep s.log i with
  | some log =>
    rw [hwriter] at h
    cases h
    refine Moves.write (extends_of_writerStep hwriter) ?_
    rintro j rfl
    cases hwriter
  | none =>
    rw [hwriter] at h
    have hconsumer : s.consumerStep tenantId i = some s' := h
    cases i with
    | append | insert | commit | abort => cases hconsumer
    | replay options =>
      cases hconsumer
      exact Moves.replay options
    | read i =>
      simp only [consumerStep] at hconsumer
      cases hcall : s.calls[i]? with
      | none =>
        rw [hcall] at hconsumer
        cases hconsumer
      | some call =>
        rw [hcall] at hconsumer
        dsimp only at hconsumer
        split at hconsumer
        case h_2 => cases hconsumer
        case h_1 hready =>
          split_ifs at hconsumer with hany
          cases hconsumer
          have hnone : s.calls.any ReplayCall.handling = false := by simpa using hany
          unfold read
          split
          case h_1 hbatch => exact Moves.readNone hcall hready hnone hbatch
          case h_2 row rows hbatch => exact Moves.readSome hcall hready hnone hbatch
    | handle i =>
      simp only [consumerStep] at hconsumer
      cases hcall : s.calls[i]? with
      | none =>
        rw [hcall] at hconsumer
        cases hconsumer
      | some call =>
        rw [hcall] at hconsumer
        dsimp only at hconsumer
        split at hconsumer
        case h_2 => cases hconsumer
        case h_1 count row rows hphase =>
          cases hconsumer
          unfold handle
          split_ifs with hunsafe
          · exact Moves.giveUp hcall hphase (Or.inr ⟨row, List.mem_cons_self, not_le.mpr hunsafe⟩)
          · cases rows with
            | nil => exact Moves.finish hcall hphase
            | cons next rows => exact Moves.deliver hcall hphase
    | fail i =>
      simp only [consumerStep] at hconsumer
      cases hcall : s.calls[i]? with
      | none =>
        rw [hcall] at hconsumer
        cases hconsumer
      | some call =>
        rw [hcall] at hconsumer
        dsimp only at hconsumer
        split at hconsumer
        case h_2 => cases hconsumer
        case h_1 count rows hphase =>
          cases hconsumer
          exact Moves.giveUp hcall hphase (Or.inl rfl)

theorem setCall_cases {i j : Nat} {call call' : ReplayCall E}
    (h : (s.calls.set i call)[j]? = some call') :
    (j = i ∧ call' = call) ∨ (j ≠ i ∧ s.calls[j]? = some call') := by
  rw [List.getElem?_set] at h
  split_ifs at h with hij hlt
  · exact .inl ⟨hij.symm, (Option.some.inj h).symm⟩
  · exact .inr ⟨fun heq => hij heq.symm, h⟩

theorem append_cases {i : Nat} {call call' : ReplayCall E}
    (h : (s.calls ++ [call])[i]? = some call') :
    s.calls[i]? = some call' ∨ (i = s.calls.length ∧ call' = call) := by
  rcases Nat.lt_trichotomy i s.calls.length with hlt | rfl | hgt
  · rw [List.getElem?_append_left hlt] at h
    exact .inl h
  · rw [List.getElem?_concat_length] at h
    exact .inr ⟨rfl, (Option.some.inj h).symm⟩
  · rw [List.getElem?_eq_none (by simp; omega)] at h
    cases h

theorem mem_batch {call : ReplayCall E} {row : EventRow E} (h : row ∈ s.batch tenantId call) :
    row ∈ s.log.rows ∧ row.state = .committed ∧ EventLog.ofTenant tenantId row = true ∧
      s.cursor call < row.sequence := by
  obtain ⟨hrow, hsome⟩ := List.mem_filter.mp (List.mem_of_mem_take h)
  simp only [Bool.and_eq_true, decide_eq_true_eq] at hsome
  exact ⟨hrow, hsome.1.1, hsome.1.2, hsome.2⟩

theorem batch_sorted (hlog : s.log.Sorted) (call : ReplayCall E) :
    (s.batch tenantId call).Pairwise (fun row row' => row.sequence < row'.sequence) :=
  (hlog.rows.filter _).take

theorem mem_take_of_le {l : List (EventRow E)} {n : Nat} {row last : EventRow E}
    (hl : l.Pairwise (fun row row' => row.sequence < row'.sequence)) (hrow : row ∈ l)
    (hlast : last ∈ l.take n) (hle : row.sequence ≤ last.sequence) : row ∈ l.take n := by
  rw [← List.take_append_drop n l] at hl hrow
  rcases List.mem_append.mp hrow with htake | hdrop
  · exact htake
  · have hlt := (List.pairwise_append.mp hl).2.2 last hlast row hdrop
    omega

theorem mem_batch_of_le {call : ReplayCall E} {row last : EventRow E} (hlog : s.log.Sorted)
    (hrow : row ∈ s.log.rows) (hcommitted : row.state = .committed)
    (htenant : EventLog.ofTenant tenantId row = true) (hcursor : s.cursor call < row.sequence)
    (hlast : last ∈ s.batch tenantId call) (hle : row.sequence ≤ last.sequence) :
    row ∈ s.batch tenantId call := by
  refine mem_take_of_le (hlog.rows.filter _) ?_ hlast hle
  refine List.mem_filter.mpr ⟨hrow, ?_⟩
  simp only [Bool.and_eq_true, decide_eq_true_eq]
  exact ⟨⟨hcommitted, htenant⟩, hcursor⟩

theorem checkpoint_le_checkpointOf (s : EventStore E) (call : ReplayCall E) :
    s.checkpoint.getD 0 ≤ s.checkpointOf call := by
  unfold checkpointOf
  cases s.checkpoint with
  | none => exact Nat.zero_le _
  | some n => exact le_rfl

theorem checkpointOf_le_cursor (s : EventStore E) (call : ReplayCall E) :
    s.checkpointOf call ≤ s.cursor call := le_max_right _ _

/-! ## The invariant of all runs -/

/-- The log is sorted, one batch at a time is handled, and what a call has delivered lies before what
    it is about to deliver. -/
structure Sane (tenantId : Option String) (s : EventStore E) : Prop where
  sorted : s.log.Sorted
  alone : ∀ (i j : Nat) (c d : ReplayCall E), s.calls[i]? = some c → s.calls[j]? = some d →
    c.handling = true → d.handling = true → i = j
  started : ∀ i n, (i, n) ∈ s.delivered → i < s.calls.length
  ready : ∀ (i : Nat) (c : ReplayCall E), s.calls[i]? = some c → c.phase = .ready →
    c.options.valid = true ∧ ∀ n, (i, n) ∈ s.delivered → n ≤ s.checkpoint.getD 0
  pending : ∀ (i : Nat) (c : ReplayCall E) (count : Nat) (rows : List (EventRow E)),
    s.calls[i]? = some c → c.phase = .handling count rows → c.options.valid = true ∧
      rows.Pairwise (fun row row' => row.sequence < row'.sequence) ∧
      ∀ row ∈ rows, row ∈ s.log.rows ∧ row.state = .committed ∧ s.checkpoint.getD 0 < row.sequence ∧
        ∀ n, (i, n) ∈ s.delivered → n < row.sequence
  ordered : ∀ i,
    ((s.delivered.filter (fun d => decide (d.1 = i))).map Prod.snd).Pairwise (· < ·)

theorem Sane.initial : Sane tenantId ({} : EventStore E) where
  sorted := EventLog.Sorted.initial
  alone := nofun
  started := nofun
  ready := nofun
  pending := nofun
  ordered := fun _ => List.Pairwise.nil

theorem handling_of_phase {call : ReplayCall E} {count : Nat} {rows : List (EventRow E)}
    (h : call.phase = .handling count rows) : call.handling = true := by
  unfold ReplayCall.handling
  rw [h]

theorem ordered_concat {delivered : List (Nat × Nat)} {i n : Nat}
    (h : ∀ j, ((delivered.filter (fun d => decide (d.1 = j))).map Prod.snd).Pairwise (· < ·))
    (hlt : ∀ m, (i, m) ∈ delivered → m < n) (j : Nat) :
    (((delivered ++ [(i, n)]).filter (fun d => decide (d.1 = j))).map Prod.snd).Pairwise (· < ·) := by
  rw [List.filter_append, List.map_append]
  by_cases hij : i = j
  · subst hij
    rw [List.filter_cons_of_pos (by simp)]
    refine List.pairwise_append.mpr ⟨h i, List.pairwise_singleton _ _, ?_⟩
    intro x hx y hy
    obtain ⟨⟨k, m⟩, hkept, rfl⟩ := List.mem_map.mp hx
    obtain ⟨hmem, hk⟩ := List.mem_filter.mp hkept
    have hki : k = i := of_decide_eq_true hk
    obtain rfl := List.mem_singleton.mp hy
    exact hlt m (hki ▸ hmem)
  · rw [List.filter_cons_of_neg (by simpa using hij)]
    simpa using h j

theorem Sane.setCall {i : Nat} {call : ReplayCall E} (h : s.Sane tenantId) (call' : ReplayCall E)
    (hcall : s.calls[i]? = some call)
    (halone : call'.handling = true → ∀ (j : Nat) (d : ReplayCall E), s.calls[j]? = some d → d.handling = true → j = i)
    (hready : call'.phase = .ready → call'.options.valid = true ∧ ∀ n, (i, n) ∈ s.delivered → n ≤ s.checkpoint.getD 0)
    (hpending : ∀ count rows, call'.phase = .handling count rows → call'.options.valid = true ∧
      rows.Pairwise (fun row row' => row.sequence < row'.sequence) ∧
      ∀ row ∈ rows, row ∈ s.log.rows ∧ row.state = .committed ∧ s.checkpoint.getD 0 < row.sequence ∧
        ∀ n, (i, n) ∈ s.delivered → n < row.sequence) :
    (s.setCall i call').Sane tenantId where
  sorted := h.sorted
  alone := by
    intro j k c d hc hd hhc hhd
    rcases setCall_cases hc with ⟨rfl, rfl⟩ | ⟨-, hold⟩
    · rcases setCall_cases hd with ⟨rfl, -⟩ | ⟨-, hold'⟩
      · rfl
      · exact (halone hhc k d hold' hhd).symm
    · rcases setCall_cases hd with ⟨rfl, rfl⟩ | ⟨-, hold'⟩
      · exact halone hhd j c hold hhc
      · exact h.alone j k c d hold hold' hhc hhd
  started := by
    intro j n hmem
    show j < (s.calls.set i call').length
    rw [List.length_set]
    exact h.started j n hmem
  ready := by
    intro j c hc hphase
    rcases setCall_cases hc with ⟨rfl, rfl⟩ | ⟨-, hold⟩
    · exact hready hphase
    · exact h.ready j c hold hphase
  pending := by
    intro j c count rows hc hphase
    rcases setCall_cases hc with ⟨rfl, rfl⟩ | ⟨-, hold⟩
    · exact hpending count rows hphase
    · exact h.pending j c count rows hold hphase
  ordered := h.ordered

theorem Sane.advance (h : s.Sane tenantId) (n batches : Nat) (hn : s.checkpoint.getD 0 ≤ n)
    (hnone : ∀ (j : Nat) (d : ReplayCall E), s.calls[j]? = some d → d.handling = false) :
    Sane tenantId { s with
      checkpoint := some n
      batches := batches } where
  sorted := h.sorted
  alone := h.alone
  started := h.started
  ready := fun j c hc hphase =>
    ⟨(h.ready j c hc hphase).1, fun m hm => ((h.ready j c hc hphase).2 m hm).trans hn⟩
  pending := by
    intro j c count rows hc hphase
    cases (hnone j c hc).symm.trans (handling_of_phase hphase)
  ordered := h.ordered

theorem Sane.record {i n : Nat} {call : ReplayCall E} (h : s.Sane tenantId)
    (hcall : s.calls[i]? = some call) (hphase : call.phase ≠ .ready)
    (hlt : ∀ m, (i, m) ∈ s.delivered → m < n)
    (hpending : ∀ count rows, call.phase = .handling count rows → ∀ row ∈ rows, n < row.sequence) :
    Sane tenantId { s with delivered := s.delivered ++ [(i, n)] } where
  sorted := h.sorted
  alone := h.alone
  started := by
    intro j m hmem
    rcases List.mem_append.mp hmem with hold | hnew
    · exact h.started j m hold
    · obtain ⟨rfl, rfl⟩ := Prod.mk.inj (List.mem_singleton.mp hnew)
      exact (List.getElem?_eq_some_iff.mp hcall).1
  ready := by
    intro j c hc hready
    refine ⟨(h.ready j c hc hready).1, fun m hmem => ?_⟩
    rcases List.mem_append.mp hmem with hold | hnew
    · exact (h.ready j c hc hready).2 m hold
    · obtain ⟨rfl, rfl⟩ := Prod.mk.inj (List.mem_singleton.mp hnew)
      obtain rfl := Option.some.inj (hcall.symm.trans hc)
      exact absurd hready hphase
  pending := by
    intro j c count rows hc hhandling
    obtain ⟨hvalid, hsorted, hrows⟩ := h.pending j c count rows hc hhandling
    refine ⟨hvalid, hsorted, fun row hrow => ?_⟩
    obtain ⟨hlog, hcommitted, hcheckpoint, hbefore⟩ := hrows row hrow
    refine ⟨hlog, hcommitted, hcheckpoint, fun m hmem => ?_⟩
    rcases List.mem_append.mp hmem with hold | hnew
    · exact hbefore m hold
    · obtain ⟨rfl, rfl⟩ := Prod.mk.inj (List.mem_singleton.mp hnew)
      obtain rfl := Option.some.inj (hcall.symm.trans hc)
      exact hpending count rows hhandling row hrow
  ordered := ordered_concat h.ordered hlt

theorem not_handling (h : s.calls.any ReplayCall.handling = false) (j : Nat) (d : ReplayCall E)
    (hd : s.calls[j]? = some d) : d.handling = false := by
  have hall := List.any_eq_false.mp h d (List.mem_of_getElem? hd)
  simpa using hall

theorem Sane.replay (h : s.Sane tenantId) (options : PostgresReplayOptions) : (s.replay options).Sane tenantId := by
  have hphase : ∀ count rows, (if options.valid then ReplayPhase.ready else .threw)
      ≠ ReplayPhase.handling (E := E) count rows := by
    intro count rows
    split_ifs <;> nofun
  have hidle : (⟨options, if options.valid then .ready else .threw, 0, true⟩ : ReplayCall E).handling
      = false := by
    unfold ReplayCall.handling
    split_ifs <;> rfl
  refine ⟨h.sorted, ?_, ?_, ?_, ?_, h.ordered⟩
  · intro j k c d hc hd hhc hhd
    rcases append_cases hc with hold | ⟨-, rfl⟩
    · rcases append_cases hd with hold' | ⟨-, rfl⟩
      · exact h.alone j k c d hold hold' hhc hhd
      · cases hidle.symm.trans hhd
    · cases hidle.symm.trans hhc
  · intro j n hmem
    show j < (s.calls ++ [_]).length
    have hlt := h.started j n hmem
    simp only [List.length_append, List.length_singleton]
    omega
  · intro j c hc hready
    rcases append_cases hc with hold | ⟨rfl, rfl⟩
    · exact h.ready j c hold hready
    · refine ⟨?_, fun n hmem => absurd (h.started _ n hmem) (lt_irrefl _)⟩
      by_contra hinvalid
      rw [if_neg hinvalid] at hready
      cases hready
  · intro j c count rows hc hhandling
    rcases append_cases hc with hold | ⟨rfl, rfl⟩
    · exact h.pending j c count rows hold hhandling
    · exact absurd hhandling (hphase count rows)

theorem Sane.finish {i count : Nat} {call : ReplayCall E} {row : EventRow E} (h : s.Sane tenantId)
    (hcall : s.calls[i]? = some call) (hphase : call.phase = .handling count [row]) :
    Sane tenantId { s.setCall i { call with
        phase := .ready
        processed := call.processed + count
        firstBatch := false } with
      checkpoint := some row.sequence
      delivered := s.delivered ++ [(i, row.sequence)]
      batches := s.batches + 1 } := by
  obtain ⟨hvalid, -, hrows⟩ := h.pending i call count [row] hcall hphase
  obtain ⟨-, -, hcheckpoint, hbefore⟩ := hrows row List.mem_cons_self
  have hlength : i < s.calls.length := (List.getElem?_eq_some_iff.mp hcall).1
  -- the call leaves the batch, delivers, and then the checkpoint advances
  have hleft : (s.setCall i { call with phase := .threw }).Sane tenantId :=
    h.setCall _ hcall nofun nofun nofun
  have hset : (s.setCall i { call with phase := .threw }).calls[i]?
      = some { call with phase := .threw } := List.getElem?_set_self hlength
  have hidle : ∀ (j : Nat) (d : ReplayCall E),
      (s.setCall i { call with phase := .threw }).calls[j]? = some d → d.handling = false := by
    intro j d hd
    rcases setCall_cases hd with ⟨-, rfl⟩ | ⟨hne, hold⟩
    · rfl
    · by_contra hhandling
      exact hne (h.alone j i d call hold hcall (by simpa using hhandling) (handling_of_phase hphase))
  have hrecord := hleft.record hset (by nofun) hbefore (by nofun)
  have hadvance := hrecord.advance row.sequence (s.batches + 1) hcheckpoint.le hidle
  have hdelivered : ∀ m, (i, m) ∈ s.delivered ++ [(i, row.sequence)] → m ≤ row.sequence := by
    intro m hmem
    rcases List.mem_append.mp hmem with hold | hnew
    · exact (hbefore m hold).le
    · obtain ⟨-, rfl⟩ := Prod.mk.inj (List.mem_singleton.mp hnew)
      exact le_rfl
  have hready := hadvance.setCall { call with
    phase := .ready
    processed := call.processed + count
    firstBatch := false } hset nofun (fun _ => ⟨hvalid, hdelivered⟩) nofun
  unfold EventStore.setCall at hready ⊢
  simpa only [List.set_set] using hready

theorem Sane.moves {i : EventStep E} (h : s.Sane tenantId) (hmove : Moves tenantId s i s') : s'.Sane tenantId := by
  cases hmove with
  | write hlog _ =>
    refine ⟨hlog.sorted h.sorted, h.alone, h.started, h.ready, ?_, h.ordered⟩
    intro j c count rows hc hphase
    obtain ⟨hvalid, hsorted, hrows⟩ := h.pending j c count rows hc hphase
    refine ⟨hvalid, hsorted, fun row hrow => ?_⟩
    obtain ⟨hmem, hcommitted, hrest⟩ := hrows row hrow
    exact ⟨hlog.keeps row hmem hcommitted, hcommitted, hrest⟩
  | replay options => exact h.replay options
  | @readNone i call hcall _ hnone _ =>
    have hset : (s.setCall i { call with phase := .returned call.processed }).Sane tenantId :=
      h.setCall _ hcall nofun nofun nofun
    refine hset.advance _ _ (s.checkpoint_le_checkpointOf call) fun j d hd => ?_
    rcases setCall_cases hd with ⟨-, rfl⟩ | ⟨-, hold⟩
    · rfl
    · exact not_handling hnone j d hold
  | @readSome i call row rows hcall hready hnone hbatch =>
    obtain ⟨hvalid, hdelivered⟩ := h.ready i call hcall hready
    refine h.setCall _ hcall (fun _ j d hd hhandling => ?_) nofun ?_
    · cases (not_handling hnone j d hd).symm.trans hhandling
    · rintro count rows' hphase
      obtain ⟨-, rfl⟩ := ReplayPhase.handling.inj hphase
      refine ⟨hvalid, hbatch ▸ batch_sorted h.sorted call, fun row' hrow' => ?_⟩
      obtain ⟨hlog, hcommitted, -, hcursor⟩ := mem_batch (hbatch ▸ hrow')
      have hcheckpoint := s.checkpoint_le_checkpointOf call
      have hle := s.checkpointOf_le_cursor call
      refine ⟨hlog, hcommitted, by omega, fun n hn => ?_⟩
      have hold := hdelivered n hn
      omega
  | @deliver i call count row next rows hcall hphase =>
    obtain ⟨hvalid, hsorted, hrows⟩ := h.pending i call count _ hcall hphase
    obtain ⟨hfirst, hrest⟩ := List.pairwise_cons.mp hsorted
    have hset : (s.setCall i { call with phase := .handling count (next :: rows) }).Sane tenantId := by
      refine h.setCall _ hcall (fun _ j d hd hhandling =>
        h.alone j i d call hd hcall hhandling (handling_of_phase hphase)) nofun ?_
      rintro count' rows' hphase'
      obtain ⟨-, rfl⟩ := ReplayPhase.handling.inj hphase'
      exact ⟨hvalid, hrest, fun row' hrow' => hrows row' (List.mem_cons_of_mem _ hrow')⟩
    have hlength : i < s.calls.length := (List.getElem?_eq_some_iff.mp hcall).1
    refine hset.record (List.getElem?_set_self hlength) nofun (hrows row List.mem_cons_self).2.2.2 ?_
    rintro count' rows' hphase'
    obtain ⟨-, rfl⟩ := ReplayPhase.handling.inj hphase'
    exact hfirst
  | @finish i call count row hcall hphase => exact h.finish hcall hphase
  | @giveUp i j call count rows hcall hphase _ => exact h.setCall _ hcall nofun nofun nofun

theorem sane_of_reachable [DecidableEq E] (h : (system E tenantId).Reachable s) : s.Sane tenantId := by
  refine h.invariant (Sane tenantId) ?_ ?_
  · rintro s rfl
    exact Sane.initial
  · intro s i s' hs hstep
    exact hs.moves (moves_of_step hstep)

/-! ## The invariant of runs in order -/

/-- Below the checkpoint, every event of the tenant has been delivered; up to any row of the batch that
    is being handled, it has been delivered or is in the batch. -/
structure Covered (tenantId : Option String) (s : EventStore E) : Prop where
  ahead : s.checkpoint.getD 0 < s.log.nextSequence
  below : ∀ row ∈ s.log.rows, EventLog.ofTenant tenantId row = true →
    row.sequence ≤ s.checkpoint.getD 0 → row.state = .committed ∧ s.Delivered row.sequence
  batch : ∀ (i : Nat) (c : ReplayCall E) (count : Nat) (rows : List (EventRow E)),
    s.calls[i]? = some c → c.phase = .handling count rows → ∀ last ∈ rows,
      (last.sequence : Int) ≤ maxSafeInteger ∧ last.sequence < s.log.nextSequence ∧
      ∀ row ∈ s.log.rows, EventLog.ofTenant tenantId row = true → row.sequence ≤ last.sequence →
        row.state = .committed ∧ (s.Delivered row.sequence ∨ row ∈ rows)

theorem Covered.initial : Covered tenantId ({} : EventStore E) where
  ahead := Nat.zero_lt_one
  below := nofun
  batch := nofun

theorem Delivered.concat {n : Nat} {d : Nat × Nat} (h : s.Delivered n) : ∃ i, (i, n) ∈ s.delivered ++ [d] := by
  obtain ⟨i, hi⟩ := h
  exact ⟨i, List.mem_append_left _ hi⟩

theorem extends_old {log log' : EventLog E} {row' : EventRow E} (h : log.Extends log')
    (hrow' : row' ∈ log'.rows) (hlt : row'.sequence < log.nextSequence)
    (hcommitted : ∀ row ∈ log.rows, row.sequence = row'.sequence →
      EventLog.ofTenant tenantId row = EventLog.ofTenant tenantId row' → row.state = .committed) :
    row' ∈ log.rows := by
  rcases h.origin row' hrow' with ⟨row, hrow, hsequence, hevent, hsame⟩ | ⟨hnew, -⟩
  · have htenant : EventLog.ofTenant tenantId row = EventLog.ofTenant tenantId row' := by
      unfold EventLog.ofTenant
      rw [hevent]
    rw [hsame (hcommitted row hrow hsequence.symm htenant)]
    exact hrow
  · omega

theorem Covered.write {log : EventLog E} (h : s.Covered tenantId) (hlog : s.log.Extends log) :
    Covered tenantId { s with log := log } where
  ahead := h.ahead.trans_le hlog.next
  below := by
    intro row hrow htenant hle
    have hold := extends_old hlog hrow (hle.trans_lt h.ahead) (fun old hold hsequence hsame =>
      (h.below old hold (hsame.trans htenant) (hsequence.trans_le hle)).1)
    exact h.below row hold htenant hle
  batch := by
    intro i c count rows hc hphase last hlast
    obtain ⟨hsafe, hnext, hrows⟩ := h.batch i c count rows hc hphase last hlast
    refine ⟨hsafe, hnext.trans_le hlog.next, fun row hrow htenant hle => ?_⟩
    have hold := extends_old hlog hrow (hle.trans_lt hnext) (fun old hold hsequence hsame =>
      (hrows old hold (hsame.trans htenant) (hsequence.trans_le hle)).1)
    exact hrows row hold htenant hle

theorem Covered.setCall {i : Nat} {call' : ReplayCall E} (h : s.Covered tenantId)
    (hidle : call'.handling = false) : (s.setCall i call').Covered tenantId where
  ahead := h.ahead
  below := h.below
  batch := by
    intro j c count rows hc hphase
    rcases setCall_cases hc with ⟨-, rfl⟩ | ⟨-, hold⟩
    · cases hidle.symm.trans (handling_of_phase hphase)
    · exact h.batch j c count rows hold hphase

theorem covered_batch {call : ReplayCall E} (hs : s.Sane tenantId) (h : s.Covered tenantId)
    (hpasses : s.PassesNothing tenantId call) {last : EventRow E}
    (hlast : last ∈ s.batch tenantId call) {row : EventRow E} (hrow : row ∈ s.log.rows)
    (htenant : EventLog.ofTenant tenantId row = true) (hle : row.sequence ≤ last.sequence) :
    row.state = .committed ∧ (s.Delivered row.sequence ∨ row ∈ s.batch tenantId call) := by
  obtain ⟨hbatch, -, hskips⟩ := hpasses
  have hcommitted : row.state = .committed := by
    by_contra hopen
    have hlt := (hbatch last hlast).2 row hrow htenant hopen
    omega
  refine ⟨hcommitted, ?_⟩
  rcases Nat.lt_or_ge (s.cursor call) row.sequence with hcursor | hcursor
  · exact .inr (mem_batch_of_le hs.sorted hrow hcommitted htenant hcursor hlast hle)
  · exact .inl (h.below row hrow htenant (hskips row hrow htenant hcursor)).2

theorem Covered.moves {i : EventStep E} (hs : s.Sane tenantId) (h : s.Covered tenantId)
    (hmove : Moves tenantId s i s') (horder : s.InOrder tenantId i) : s'.Covered tenantId := by
  cases hmove with
  | write hlog _ => exact h.write hlog
  | replay options =>
    refine ⟨h.ahead, h.below, ?_⟩
    intro j c count rows hc hphase
    rcases append_cases hc with hold | ⟨-, rfl⟩
    · exact h.batch j c count rows hold hphase
    · dsimp only at hphase
      split_ifs at hphase
  | @readNone i call hcall _ hnone _ =>
    obtain ⟨-, hnext, hskips⟩ := horder call hcall
    have hle := s.checkpointOf_le_cursor call
    refine ⟨hle.trans_lt hnext, ?_, ?_⟩
    · intro row hrow htenant hbelow
      exact h.below row hrow htenant (hskips row hrow htenant (hbelow.trans hle))
    · intro j c count rows hc hphase
      rcases setCall_cases hc with ⟨-, rfl⟩ | ⟨-, hold⟩
      · cases hphase
      · cases (not_handling hnone j c hold).symm.trans (handling_of_phase hphase)
  | @readSome i call row rows hcall _ _ hbatch =>
    have hpasses := horder call hcall
    refine ⟨h.ahead, h.below, ?_⟩
    intro j c count rows' hc hphase last hlast
    rcases setCall_cases hc with ⟨-, rfl⟩ | ⟨-, hold⟩
    · obtain ⟨-, rfl⟩ := ReplayPhase.handling.inj hphase
      rw [← hbatch] at hlast
      refine ⟨(hpasses.1 last hlast).1, hs.sorted.taken last (mem_batch hlast).1, ?_⟩
      intro row' hrow' htenant hle
      rw [← hbatch]
      exact covered_batch hs h hpasses hlast hrow' htenant hle
    · exact h.batch j c count rows' hold hphase last hlast
  | @deliver i call count row next rows hcall hphase =>
    refine ⟨h.ahead, ?_, ?_⟩
    · intro row' hrow' htenant hle
      obtain ⟨hcommitted, hdelivered⟩ := h.below row' hrow' htenant hle
      exact ⟨hcommitted, hdelivered.concat⟩
    · intro j c count' rows' hc hphase' last hlast
      rcases setCall_cases hc with ⟨-, rfl⟩ | ⟨hne, hold⟩
      · obtain ⟨-, rfl⟩ := ReplayPhase.handling.inj hphase'
        obtain ⟨hsafe, hnext, hrows⟩ :=
          h.batch i call count _ hcall hphase last (List.mem_cons_of_mem _ hlast)
        refine ⟨hsafe, hnext, fun row' hrow' htenant hle => ?_⟩
        obtain ⟨hcommitted, hdelivered | hpending⟩ := hrows row' hrow' htenant hle
        · exact ⟨hcommitted, Or.inl hdelivered.concat⟩
        · rcases List.mem_cons.mp hpending with rfl | hrest
          · exact ⟨hcommitted, Or.inl ⟨i, List.mem_append_right _ List.mem_cons_self⟩⟩
          · exact ⟨hcommitted, Or.inr hrest⟩
      · exact absurd (hs.alone j i c call hold hcall (handling_of_phase hphase') (handling_of_phase hphase)) hne
  | @finish i call count row hcall hphase =>
    obtain ⟨-, hnext, hrows⟩ := h.batch i call count _ hcall hphase row List.mem_cons_self
    refine ⟨hnext, ?_, ?_⟩
    · intro row' hrow' htenant hle
      obtain ⟨hcommitted, hdelivered | hpending⟩ := hrows row' hrow' htenant hle
      · exact ⟨hcommitted, hdelivered.concat⟩
      · obtain rfl := List.mem_singleton.mp hpending
        exact ⟨hcommitted, i, List.mem_append_right _ List.mem_cons_self⟩
    · intro j c count' rows' hc hphase'
      rcases setCall_cases hc with ⟨-, rfl⟩ | ⟨hne, hold⟩
      · cases hphase'
      · exact absurd (hs.alone j i c call hold hcall (handling_of_phase hphase') (handling_of_phase hphase)) hne
  | @giveUp i j call count rows hcall hphase _ => exact h.setCall rfl

/-! ## Runs -/

def inOrder [DecidableEq E] (tenantId : Option String) : System (EventStore E) (EventStep E) :=
  (system E tenantId).restrict (fun s i _ => s.InOrder tenantId i)

theorem covered_of_reachable [DecidableEq E] (h : (inOrder tenantId).Reachable s) :
    s.Sane tenantId ∧ s.Covered tenantId := by
  refine h.invariant (fun s => s.Sane tenantId ∧ s.Covered tenantId) ?_ ?_
  · rintro s rfl
    exact ⟨Sane.initial, Covered.initial⟩
  · rintro s i s' ⟨hs, hc⟩ ⟨hstep, horder⟩
    have hmove := moves_of_step hstep
    exact ⟨hs.moves hmove, hc.moves hs hmove horder⟩

theorem delivered_of_batch_nil {i : Nat} {call : ReplayCall E} (hs : s.Sane tenantId)
    (h : s.Covered tenantId) (hcall : s.calls[i]? = some call) (hready : call.phase = .ready)
    (hpasses : s.PassesNothing tenantId call) (hbatch : s.batch tenantId call = []) {n : Nat}
    (hn : s.Committed tenantId n) : s.Delivered n := by
  obtain ⟨row, hrow, rfl, hcommitted, htenant⟩ := hn
  rcases Nat.lt_or_ge (s.cursor call) row.sequence with hcursor | hcursor
  · have hvalid := (hs.ready i call hcall hready).1
    unfold PostgresReplayOptions.valid at hvalid
    simp only [Bool.and_eq_true, decide_eq_true_eq] at hvalid
    have hmem : row ∈ s.log.rows.filter (fun row => decide (row.state = .committed)
        && EventLog.ofTenant tenantId row && decide (s.cursor call < row.sequence)) := by
      refine List.mem_filter.mpr ⟨hrow, ?_⟩
      simp only [Bool.and_eq_true, decide_eq_true_eq]
      exact ⟨⟨hcommitted, htenant⟩, hcursor⟩
    rcases List.take_eq_nil_iff.mp hbatch with hlimit | hnil
    · omega
    · rw [hnil] at hmem
      cases hmem
  · exact (h.below row hrow htenant (hpasses.2.2 row hrow htenant hcursor)).2

theorem Committed.moves {i : EventStep E} {n : Nat} (h : s.Committed tenantId n)
    (hmove : Moves tenantId s i s') : s'.Committed tenantId n := by
  obtain ⟨row, hrow, hsequence, hcommitted, htenant⟩ := h
  cases hmove with
  | write hlog _ => exact ⟨row, hlog.keeps row hrow hcommitted, hsequence, hcommitted, htenant⟩
  | _ => exact ⟨row, hrow, hsequence, hcommitted, htenant⟩

theorem Delivered.moves {i : EventStep E} {n : Nat} (h : s.Delivered n)
    (hmove : Moves tenantId s i s') : s'.Delivered n := by
  cases hmove with
  | deliver | finish => exact h.concat
  | _ => exact h

theorem progress_moves {i : EventStep E} {n : Nat} (hs : s.Sane tenantId) (h : s.Covered tenantId)
    (hn : s.Committed tenantId n) (hmove : Moves tenantId s i s') (horder : s.InOrder tenantId i) :
    s'.Delivered n ∨
      s'.batches + s.checkpoint.getD 0 ≤ s.batches + s'.checkpoint.getD 0 := by
  cases hmove with
  | @readNone i call hcall hready _ hbatch =>
    exact .inl (delivered_of_batch_nil hs h hcall hready (horder call hcall) hbatch hn)
  | @finish i call count row hcall hphase =>
    have hlt := ((hs.pending i call count _ hcall hphase).2.2 row List.mem_cons_self).2.2.1
    refine .inr ?_
    show s.batches + 1 + s.checkpoint.getD 0 ≤ s.batches + row.sequence
    omega
  | _ => exact .inr le_rfl

theorem eventually_delivered [DecidableEq E] {n : Nat} (h : (inOrder tenantId).Reachable s)
    (hn : s.Committed tenantId n) (h' : ((inOrder tenantId).startingAt s).Reachable s')
    (hbatches : s.batches + n ≤ s'.batches) : s'.Delivered n := by
  obtain ⟨hreachable, hcommitted, hprogress⟩ : (inOrder tenantId).Reachable s' ∧
      s'.Committed tenantId n ∧ (s'.Delivered n ∨ s'.batches ≤ s.batches + s'.checkpoint.getD 0) := by
    refine h'.invariant (fun t => (inOrder tenantId).Reachable t ∧ t.Committed tenantId n ∧
      (t.Delivered n ∨ t.batches ≤ s.batches + t.checkpoint.getD 0)) ?_ ?_
    · rintro t rfl
      exact ⟨h, hn, Or.inr (Nat.le_add_right _ _)⟩
    · rintro t i t' ⟨ht, hcommitted, hprogress⟩ hstep
      obtain ⟨hs, hc⟩ := covered_of_reachable ht
      have hmove := moves_of_step hstep.1
      refine ⟨System.Reachable.step ht hstep, hcommitted.moves hmove, ?_⟩
      rcases hprogress with hdelivered | hle
      · exact .inl (hdelivered.moves hmove)
      · rcases progress_moves hs hc hcommitted hmove hstep.2 with hdelivered | hadvance
        · exact .inl hdelivered
        · right
          omega
  rcases hprogress with hdelivered | hle
  · exact hdelivered
  · obtain ⟨row, hrow, rfl, -, htenant⟩ := hcommitted
    exact ((covered_of_reachable hreachable).2.below row hrow htenant (by omega)).2

/-- While the handler does not fail, what is delivered increases over all calls. -/
structure Increasing (s : EventStore E) : Prop where
  sorted : (s.delivered.map Prod.snd).Pairwise (· < ·)
  idle : (∀ (j : Nat) (c : ReplayCall E), s.calls[j]? = some c → c.handling = false) →
    ∀ n, s.Delivered n → n ≤ s.checkpoint.getD 0
  pending : ∀ (i : Nat) (c : ReplayCall E) (count : Nat) (rows : List (EventRow E)),
    s.calls[i]? = some c → c.phase = .handling count rows →
      ∀ row ∈ rows, ∀ n, s.Delivered n → n < row.sequence

theorem Increasing.initial : Increasing ({} : EventStore E) where
  sorted := List.Pairwise.nil
  idle := by
    rintro - n ⟨i, hi⟩
    cases hi
  pending := nofun

theorem delivered_concat {i m n : Nat} (h : ∃ j, (j, n) ∈ s.delivered ++ [(i, m)]) : s.Delivered n ∨ n = m := by
  obtain ⟨j, hj⟩ := h
  rcases List.mem_append.mp hj with hold | hnew
  · exact .inl ⟨j, hold⟩
  · exact .inr (Prod.mk.inj (List.mem_singleton.mp hnew)).2

theorem sorted_concat {i m : Nat} (h : (s.delivered.map Prod.snd).Pairwise (· < ·))
    (hlt : ∀ n, s.Delivered n → n < m) :
    ((s.delivered ++ [(i, m)]).map Prod.snd).Pairwise (· < ·) := by
  rw [List.map_append]
  refine List.pairwise_append.mpr ⟨h, List.pairwise_singleton _ _, ?_⟩
  intro x hx y hy
  obtain ⟨⟨j, n⟩, hmem, rfl⟩ := List.mem_map.mp hx
  obtain rfl := List.mem_singleton.mp hy
  exact hlt n ⟨j, hmem⟩

theorem Increasing.moves {i : EventStep E} (hs : s.Sane tenantId) (hc : s.Covered tenantId)
    (h : s.Increasing) (hmove : Moves tenantId s i s') (hfail : ∀ j, i ≠ .fail j) :
    s'.Increasing := by
  cases hmove with
  | write _ _ => exact ⟨h.sorted, h.idle, h.pending⟩
  | replay options =>
    refine ⟨h.sorted, fun hidle => h.idle (fun j c hj => ?_), ?_⟩
    · have hlt := (List.getElem?_eq_some_iff.mp hj).1
      exact hidle j c ((List.getElem?_append_left hlt).trans hj)
    · intro j c count rows hcall hphase
      rcases append_cases hcall with hold | ⟨-, rfl⟩
      · exact h.pending j c count rows hold hphase
      · dsimp only at hphase
        split_ifs at hphase
  | @readNone i call hcall _ hnone _ =>
    have hle := s.checkpoint_le_checkpointOf call
    refine ⟨h.sorted, fun _ n hn => (h.idle (not_handling hnone) n hn).trans hle, ?_⟩
    intro j c count rows hj hphase
    rcases setCall_cases hj with ⟨-, rfl⟩ | ⟨-, hold⟩
    · cases hphase
    · cases (not_handling hnone j c hold).symm.trans (handling_of_phase hphase)
  | @readSome i call row rows hcall _ hnone hbatch =>
    have hlength : i < s.calls.length := (List.getElem?_eq_some_iff.mp hcall).1
    refine ⟨h.sorted, fun hidle => ?_, ?_⟩
    · cases hidle i _ (List.getElem?_set_self hlength)
    · intro j c count rows' hj hphase row' hrow' n hn
      rcases setCall_cases hj with ⟨-, rfl⟩ | ⟨-, hold⟩
      · obtain ⟨-, rfl⟩ := ReplayPhase.handling.inj hphase
        rw [← hbatch] at hrow'
        have hcursor := (mem_batch hrow').2.2.2
        have hcheckpoint := s.checkpoint_le_checkpointOf call
        have hle := s.checkpointOf_le_cursor call
        have hdelivered := h.idle (not_handling hnone) n hn
        omega
      · cases (not_handling hnone j c hold).symm.trans (handling_of_phase hphase)
  | @deliver i call count row next rows hcall hphase =>
    have hsorted := (hs.pending i call count _ hcall hphase).2.1
    have hbefore := h.pending i call count _ hcall hphase
    have hlength : i < s.calls.length := (List.getElem?_eq_some_iff.mp hcall).1
    refine ⟨sorted_concat h.sorted (hbefore row List.mem_cons_self), fun hidle => ?_, ?_⟩
    · cases hidle i _ (List.getElem?_set_self hlength)
    · intro j c count' rows' hj hphase' row' hrow' n hn
      rcases setCall_cases hj with ⟨-, rfl⟩ | ⟨hne, hold⟩
      · obtain ⟨-, rfl⟩ := ReplayPhase.handling.inj hphase'
        rcases delivered_concat hn with hdelivered | rfl
        · exact hbefore row' (List.mem_cons_of_mem _ hrow') n hdelivered
        · exact (List.pairwise_cons.mp hsorted).1 row' hrow'
      · exact absurd (hs.alone j i c call hold hcall (handling_of_phase hphase') (handling_of_phase hphase)) hne
  | @finish i call count row hcall hphase =>
    have hbefore := h.pending i call count _ hcall hphase row List.mem_cons_self
    refine ⟨sorted_concat h.sorted hbefore, fun _ n hn => ?_, ?_⟩
    · rcases delivered_concat hn with hdelivered | rfl
      · exact (hbefore n hdelivered).le
      · exact le_rfl
    · intro j c count' rows' hj hphase'
      rcases setCall_cases hj with ⟨-, rfl⟩ | ⟨hne, hold⟩
      · cases hphase'
      · exact absurd (hs.alone j i c call hold hcall (handling_of_phase hphase') (handling_of_phase hphase)) hne
  | @giveUp i j call count rows hcall hphase hfails =>
    rcases hfails with hlabel | ⟨row, hrow, hunsafe⟩
    · exact absurd hlabel (hfail j)
    · exact absurd (hc.batch j call count rows hcall hphase row hrow).1 hunsafe

end EventStore

open EventStore in
/-- In runs in order nothing is lost, and the other promises hold in all runs. -/
theorem nothing_lost (E : Type) [DecidableEq E] (tenantId : Option String) :
    NothingLost E tenantId where
  on_return := by
    intro s h i call hcall hready hpasses hbatch n hn
    obtain ⟨hs, hc⟩ := covered_of_reachable h
    exact delivered_of_batch_nil hs hc hcall hready hpasses hbatch hn
  eventually := fun s h n hn s' h' hbatches => eventually_delivered h hn h' hbatches
  once := by
    intro s h
    obtain ⟨-, -, hincreasing⟩ := h.invariant
      (fun s => s.Sane tenantId ∧ s.Covered tenantId ∧ s.Increasing) (by
        rintro s rfl
        exact ⟨Sane.initial, Covered.initial, Increasing.initial⟩) (by
        rintro s i s' ⟨hs, hc, hi⟩ ⟨hstep, horder, hfail⟩
        have hmove := moves_of_step hstep
        exact ⟨hs.moves hmove, hc.moves hs hmove horder, hi.moves hs hc hmove hfail⟩)
    exact hincreasing.sorted.imp (fun hlt => hlt.ne)
  ordered := fun s h => (sane_of_reachable h).ordered

namespace EventStore

variable {s s' : EventStore E}

theorem never_delivered [DecidableEq E] {n : Nat} (hs : s.Sane tenantId)
    (hpassed : n ≤ s.checkpoint.getD 0) (hn : ¬ s.Delivered n)
    (h : ((system E tenantId).startingAt s).Reachable s') : ¬ s'.Delivered n := by
  have hinv := h.invariant (fun t => t.Sane tenantId ∧ n ≤ t.checkpoint.getD 0 ∧ ¬ t.Delivered n) (by
      rintro t rfl
      exact ⟨hs, hpassed, hn⟩) (by
      rintro t i t' ⟨ht, hle, hnot⟩ hstep
      have hmove := moves_of_step hstep
      refine ⟨ht.moves hmove, ?_⟩
      cases hmove with
      | @readNone i call _ _ _ _ => exact ⟨hle.trans (t.checkpoint_le_checkpointOf call), hnot⟩
      | @deliver i call count row next rows hcall hphase =>
        have hlt := ((ht.pending i call count _ hcall hphase).2.2 row List.mem_cons_self).2.2.1
        refine ⟨hle, fun hdelivered => ?_⟩
        rcases delivered_concat hdelivered with hold | rfl
        · exact hnot hold
        · omega
      | @finish i call count row hcall hphase =>
        have hlt := ((ht.pending i call count _ hcall hphase).2.2 row List.mem_cons_self).2.2.1
        refine ⟨hle.trans hlt.le, fun hdelivered => ?_⟩
        rcases delivered_concat hdelivered with hold | rfl
        · exact hnot hold
        · omega
      | _ => exact ⟨hle, hnot⟩)
  exact hinv.2.2

def runSteps [DecidableEq E] (tenantId : Option String) (s : EventStore E) :
    List (EventStep E) → Option (EventStore E)
  | [] => some s
  | i :: steps => (s.step tenantId i).bind (fun s' => s'.runSteps tenantId steps)

theorem reachable_of_runSteps [DecidableEq E] {steps : List (EventStep E)}
    (hs : (system E tenantId).Reachable s) (h : s.runSteps tenantId steps = some s') :
    (system E tenantId).Reachable s' := by
  induction steps generalizing s with
  | nil =>
    cases h
    exact hs
  | cons i steps ih =>
    obtain ⟨t, hstep, hrest⟩ := Option.bind_eq_some_iff.mp h
    exact ih (System.Reachable.step hs hstep) hrest

/-- Two transactions insert an event each, and the second one commits first. A call of `replay` delivers
    the second event before the first transaction commits. -/
def lateCommit : List (EventStep Unit) :=
  [.append 1 ⟨"tenant:acme", "key:1", "event:1", ()⟩, .insert 1,
    .append 2 ⟨"tenant:acme", "key:2", "event:2", ()⟩, .insert 2, .commit 2,
    .replay {}, .read 0, .handle 0, .read 0, .commit 1]

end EventStore

open EventStore in
/-- The first event is never delivered, although it is committed. -/
theorem late_commit_is_lost : ¬ ∀ s, (EventStore.system Unit (some "tenant:acme")).Reachable s →
    ∀ n, s.Committed (some "tenant:acme") n →
      ∃ s', ((EventStore.system Unit (some "tenant:acme")).startingAt s).Reachable s' ∧
        s'.Delivered n := by
  intro h
  have hrun : (({} : EventStore Unit).runSteps (some "tenant:acme") lateCommit).any (fun s =>
      decide (s.checkpoint = some 2 ∧ s.delivered = [(0, 2)] ∧
        (⟨1, ⟨"tenant:acme", "key:1", "event:1", ()⟩, .committed⟩ : EventRow Unit) ∈ s.log.rows))
      = true := by
    decide +kernel
  obtain ⟨s, hs, hdecide⟩ := (Option.any_eq_true _ _).mp hrun
  obtain ⟨hcheckpoint, hdelivered, hrow⟩ := of_decide_eq_true hdecide
  have hreachable := reachable_of_runSteps (System.Reachable.init rfl) hs
  obtain ⟨s', hs', hfinally⟩ := h s hreachable 1 ⟨_, hrow, rfl, rfl, by decide⟩
  refine never_delivered (sane_of_reachable hreachable) ?_ ?_ hs' hfinally
  · rw [hcheckpoint]
    decide
  · rintro ⟨i, hi⟩
    rw [hdelivered] at hi
    cases Prod.mk.inj (List.mem_singleton.mp hi) with
    | intro _ hn => cases hn

end Premise.Postgres
