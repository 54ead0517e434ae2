import Premise.Postgres.ValidationFlight
import Premise.ValidationScope.Proofs.ScopeProofs

/-!
# Proofs: the flights table

A row belongs to the leader that was elected last under its key. While the flight is in progress, no
completion under the key has its token; a completed row holds the receipt of the last completion.
-/

namespace Premise.Postgres

open Collections Control Js ValidationScope

variable {R D : Type} {digest : String → String} {column : R → ReceiptColumn D}

variable {scope : PremiseValidationScope} {key : String} {fencingToken : Int}

theorem scopeIdentity_ok {normalized : PremiseValidationScope}
    (h : scopeIdentity digest scope = .ok (normalized, key)) :
    normalizePremiseValidationScope normalized = .ok normalized ∧
      key = "sha256:" ++ digest (String.ofList (scopeText normalized)) := by
  unfold scopeIdentity at h
  cases hnormal : normalizePremiseValidationScope scope with
  | error err =>
    rw [hnormal] at h
    cases h
  | ok normal =>
    have hagain := PremiseValidationScope.normalize_again hnormal
    rw [hnormal] at h
    have hkey : premiseValidationScopeKey digest normal
        = .ok ("sha256:" ++ digest (String.ofList (scopeText normal))) := by
      unfold premiseValidationScopeKey canonicalPremiseValidationScope
      rw [hagain]
      rfl
    have hpair : (normal, "sha256:" ++ digest (String.ofList (scopeText normal)))
        = (normalized, key) := by
      have hvalue : (Except.ok (normal, "sha256:" ++ digest (String.ofList (scopeText normal)))
          : Except JsError _) = .ok (normalized, key) := by
        rw [← h]
        show _ = (premiseValidationScopeKey digest normal).bind _
        rw [hkey]
        rfl
      exact Except.ok.inj hvalue
    cases hpair
    exact ⟨hagain, rfl⟩

theorem scope_eq_of_key {s s' scope' : PremiseValidationScope} (h : scopeIdentity digest s = .ok (scope, key))
    (h' : scopeIdentity digest s' = .ok (scope', key))
    (hdigest : Set.InjOn digest {String.ofList (scopeText scope), String.ofList (scopeText scope')}) :
    scope = scope' := by
  have hkey := (scopeIdentity_ok h).2.symm.trans (scopeIdentity_ok h').2
  have htext : digest (String.ofList (scopeText scope)) = digest (String.ofList (scopeText scope')) :=
    String.append_right_inj _ |>.mp hkey
  have hscope := hdigest (by simp) (by simp) htext
  exact scopeText_injective (String.ofList_injective hscope)

/-! ## One call -/

namespace FlightTable

variable {t : FlightTable D}

theorem claimedRow_spec {owner flightId : String} {now expiresAt : Int} {row : FlightRow D}
    (h : t.claimedRow key scope owner flightId now expiresAt = some row) :
    row.owner = owner ∧ row.flightId = flightId ∧ row.state = .inProgress ∧
      row.expiresAt = expiresAt ∧ ∀ old, t.rows.get? key = some old →
        old.expiresAt ≤ now ∧ row.fencingToken = old.fencingToken + 1 := by
  unfold claimedRow at h
  cases hold : t.rows.get? key with
  | none =>
    rw [hold] at h
    cases h
    exact ⟨rfl, rfl, rfl, rfl, nofun⟩
  | some old =>
    rw [hold] at h
    dsimp only at h
    split_ifs at h with hexpired
    cases h
    refine ⟨rfl, rfl, rfl, rfl, ?_⟩
    rintro old' hold'
    cases hold'
    exact ⟨hexpired, rfl⟩

theorem claim_cases (t : FlightTable D) (digest : String → String) (scope : PremiseValidationScope)
    (owner flightId : String) (now leaseMs : Int) :
    (∃ normalized key row, scopeIdentity digest scope = .ok (normalized, key) ∧
      t.claimedRow key normalized owner flightId now (now + leaseMs) = some row ∧
      t.claim digest scope owner flightId now leaseMs = (⟨t.rows.set key row⟩, .leader row.fencingToken row.expiresAt)) ∨
    ((t.claim digest scope owner flightId now leaseMs).1 = t ∧
      ((∃ normalized key, scopeIdentity digest scope = .ok (normalized, key) ∧
        (t.claim digest scope owner flightId now leaseMs).2 = t.joinFlight digest normalized.tenantId key now) ∨
      (t.claim digest scope owner flightId now leaseMs).2 = .invalid ∨
      (t.claim digest scope owner flightId now leaseMs).2 = .storeUnavailable)) := by
  unfold claim
  cases hscope : scopeIdentity digest scope with
  | error err => exact .inr ⟨rfl, Or.inr (Or.inl rfl)⟩
  | ok identity =>
    obtain ⟨normalized, key⟩ := identity
    dsimp only
    split_ifs
    · exact .inr ⟨rfl, Or.inr (Or.inl rfl)⟩
    · exact .inr ⟨rfl, Or.inr (Or.inr rfl)⟩
    · exact .inr ⟨rfl, Or.inr (Or.inr rfl)⟩
    · cases hrow : t.claimedRow key normalized owner flightId now (now + leaseMs) with
      | none => exact .inr ⟨rfl, Or.inl ⟨normalized, key, rfl, rfl⟩⟩
      | some row =>
        dsimp only
        split_ifs
        · exact .inr ⟨rfl, Or.inr (Or.inl rfl)⟩
        · exact .inl ⟨normalized, key, row, rfl, hrow, rfl⟩

theorem joinFlight_ne_leader (t : FlightTable D) (digest : String → String) (tenantId key : String)
    (now fencingToken expiresAt : Int) :
    t.joinFlight digest tenantId key now ≠ .leader fencingToken expiresAt := by
  unfold joinFlight
  split
  · split_ifs
    · nofun
    · split <;> nofun
  · nofun

theorem complete_cases (t : FlightTable D) (digest : String → String) (column : R → ReceiptColumn D)
    (scope : PremiseValidationScope) (owner flightId : String) (fencingToken : Int) (receipt : R)
    (now retentionMs : Int) :
    (∃ normalized key row document, scopeIdentity digest scope = .ok (normalized, key) ∧
      column receipt = .stored document ∧ t.rows.get? key = some row ∧
      Completes row normalized.tenantId owner flightId fencingToken now ∧
      t.complete digest column scope owner flightId fencingToken receipt now retentionMs = (⟨t.rows.set key { row with
            state := .completed
            receipt := some document
            updatedAt := now
            expiresAt := now + retentionMs }⟩, .completed)) ∨
    ((t.complete digest column scope owner flightId fencingToken receipt now retentionMs).1 = t ∧
      (t.complete digest column scope owner flightId fencingToken receipt now retentionMs).2
        ≠ .completed) := by
  have hrefuse : ∀ tenantId key, t.refuseCompletion digest tenantId key now ≠ .completed := by
    intro tenantId key
    unfold refuseCompletion
    split
    · simp
    · simp
    · split_ifs <;> simp
  unfold complete
  cases hscope : scopeIdentity digest scope with
  | error err => exact .inr ⟨rfl, by simp⟩
  | ok identity =>
    obtain ⟨normalized, key⟩ := identity
    cases hcolumn : column receipt with
    | notSerializable | refused => split_ifs <;> exact .inr ⟨rfl, by simp⟩
    | stored document =>
      dsimp only
      split_ifs
      · exact .inr ⟨rfl, by simp⟩
      · exact .inr ⟨rfl, by simp⟩
      · cases hrow : t.rows.get? key with
        | none => exact .inr ⟨rfl, hrefuse _ _⟩
        | some row =>
          dsimp only
          split_ifs with hcompletes
          · exact .inl ⟨normalized, key, row, document, rfl, rfl, hrow, hcompletes, rfl⟩
          · exact .inr ⟨rfl, hrefuse _ _⟩

theorem current_spec {tenantId : String} {flight : CurrentFlight D}
    (h : t.current digest tenantId key = some (some flight)) :
    ∃ row, t.rows.get? key = some row ∧
      flight = ⟨row.state, row.fencingToken, row.expiresAt, row.receipt⟩ := by
  unfold current at h
  cases hrow : t.rows.get? key with
  | none =>
    rw [hrow] at h
    cases h
  | some row =>
    rw [hrow] at h
    dsimp only at h
    split_ifs at h
    · cases h
    · exact ⟨row, rfl, (Option.some.inj (Option.some.inj h)).symm⟩

theorem joinFlight_completed {tenantId : String} {now : Int} {receipt : D}
    (h : t.joinFlight digest tenantId key now = .completed fencingToken receipt) :
    ∃ flight, t.current digest tenantId key = some (some flight) ∧ flight.state = .completed ∧
      flight.fencingToken = fencingToken ∧ flight.receipt = some receipt := by
  unfold joinFlight at h
  split at h
  case h_2 => cases h
  case h_1 flight hcurrent =>
    split_ifs at h
    split at h
    case h_1 => cases h
    case h_3 => cases h
    case h_2 receipt' hstate hreceipt =>
      obtain ⟨htoken, rfl⟩ := ValidationFlightClaim.completed.inj h
      exact ⟨flight, hcurrent, hstate, htoken, hreceipt⟩

theorem read_completed {now : Int} {receipt : D} (h : t.read digest scope now = .completed fencingToken receipt) :
    ∃ normalized key flight, scopeIdentity digest scope = .ok (normalized, key) ∧
      t.current digest normalized.tenantId key = some (some flight) ∧ flight.state = .completed ∧
      flight.fencingToken = fencingToken ∧ flight.receipt = some receipt := by
  unfold read at h
  split at h
  case h_1 => cases h
  case h_2 normalized key hscope =>
    split_ifs at h
    split at h
    case h_1 => cases h
    case h_2 => cases h
    case h_3 flight hcurrent =>
      split_ifs at h
      split at h
      case h_1 => cases h
      case h_3 => cases h
      case h_2 receipt' hstate hreceipt =>
        obtain ⟨htoken, rfl⟩ := ValidationFlightRead.completed.inj h
        exact ⟨normalized, key, flight, hscope, hcurrent, hstate, htoken, hreceipt⟩

theorem Gives.row {now : Int} {receipt : D} (h : t.Gives digest scope now fencingToken receipt) :
    ∃ normalized key row, scopeIdentity digest scope = .ok (normalized, key) ∧
      t.rows.get? key = some row ∧ row.state = .completed ∧ row.fencingToken = fencingToken ∧
      row.receipt = some receipt := by
  obtain ⟨normalized, key, flight, hscope, hcurrent, hflight⟩ :
      ∃ normalized key flight, scopeIdentity digest scope = .ok (normalized, key) ∧
        t.current digest normalized.tenantId key = some (some flight) ∧ flight.state = .completed ∧
        flight.fencingToken = fencingToken ∧ flight.receipt = some receipt := by
    rcases h with hread | ⟨owner, flightId, leaseMs, hclaim⟩
    · exact read_completed hread
    · rcases t.claim_cases digest scope owner flightId now leaseMs with
        ⟨_, _, _, -, -, heq⟩ | ⟨-, ⟨normalized, key, hscope, hjoin⟩ | hinvalid | hunavailable⟩
      · rw [heq] at hclaim
        cases hclaim
      · obtain ⟨flight, hflight⟩ := joinFlight_completed (hjoin.symm.trans hclaim)
        exact ⟨normalized, key, flight, hscope, hflight⟩
      · cases hinvalid.symm.trans hclaim
      · cases hunavailable.symm.trans hclaim
  obtain ⟨row, hrow, rfl⟩ := current_spec hcurrent
  exact ⟨normalized, key, row, hscope, hrow, hflight⟩

end FlightTable

/-! ## The invariant -/

/-- What the row of a key says of the leaders and the completions under the key. -/
structure Accounted (digest : String → String) (key : String) (row : FlightRow D)
    (leaders : List Leader) (completions : List (Completion D)) : Prop where
  leader : ∃ l, leaders.getLast? = some l ∧ l.owner = row.owner ∧ l.flightId = row.flightId ∧
    l.fencingToken = row.fencingToken ∧ (row.state = .inProgress → l.expiresAt = row.expiresAt)
  leaders_le : ∀ l ∈ leaders, l.fencingToken ≤ row.fencingToken
  completions_le : ∀ c ∈ completions, c.fencingToken ≤ row.fencingToken
  completions_lt : row.state = .inProgress → ∀ c ∈ completions, c.fencingToken < row.fencingToken
  completed : row.state = .completed → ∃ c, completions.getLast? = some c ∧
    c.fencingToken = row.fencingToken ∧ row.receipt = some c.receipt ∧
    ∃ scope, scopeIdentity digest scope = .ok (c.scope, key)

namespace Flights

variable {w w' : Flights D}

structure Sound (digest : String → String) (w : Flights D) : Prop where
  leaders_increase : ∀ key, ((w.leadersOf key).map Leader.fencingToken).Pairwise (· < ·)
  completions_increase : ∀ key,
    ((w.completionsOf key).map Completion.fencingToken).Pairwise (· < ·)
  missing : ∀ key, w.table.rows.get? key = none →
    w.leadersOf key = [] ∧ w.completionsOf key = []
  accounted : ∀ key row, w.table.rows.get? key = some row →
    Accounted digest key row (w.leadersOf key) (w.completionsOf key)

theorem Sound.initial : Sound digest ({} : Flights D) where
  leaders_increase := fun _ => List.Pairwise.nil
  completions_increase := fun _ => List.Pairwise.nil
  missing := fun _ _ => ⟨rfl, rfl⟩
  accounted := by
    intro key row hrow
    cases (OrderedMap.get?_empty key).symm.trans hrow

theorem pairwise_concat {α : Type} {f : α → Int} {l : List α} {a : α}
    (hl : (l.map f).Pairwise (· < ·)) (ha : ∀ b ∈ l, f b < f a) :
    ((l ++ [a]).map f).Pairwise (· < ·) := by
  rw [List.map_append, List.pairwise_append]
  refine ⟨hl, List.pairwise_singleton _ _, ?_⟩
  intro x hx y hy
  obtain ⟨b, hb, rfl⟩ := List.mem_map.mp hx
  obtain rfl := List.mem_singleton.mp hy
  exact ha b hb

def elect (w : Flights D) (key : String) (row : FlightRow D) : Flights D :=
  { w with
    table := ⟨w.table.rows.set key row⟩
    leaders := w.leaders ++ [⟨key, row.owner, row.flightId, row.fencingToken, row.expiresAt⟩] }

def finish (w : Flights D) (key : String) (row : FlightRow D) (scope : PremiseValidationScope)
    (document : D) : Flights D :=
  { w with
    table := ⟨w.table.rows.set key row⟩
    completions := w.completions ++ [⟨key, scope, row.fencingToken, document⟩] }

theorem leadersOf_elect (w : Flights D) (key : String) (row : FlightRow D) (k : String) :
    (w.elect key row).leadersOf k = w.leadersOf k ++
      if key = k then [⟨key, row.owner, row.flightId, row.fencingToken, row.expiresAt⟩] else [] := by
  unfold leadersOf elect
  rw [List.filter_append]
  by_cases h : key = k <;> simp [h]

theorem completionsOf_finish (w : Flights D) (key : String) (row : FlightRow D)
    (scope : PremiseValidationScope) (document : D) (k : String) :
    (w.finish key row scope document).completionsOf k = w.completionsOf k ++
      if key = k then [⟨key, scope, row.fencingToken, document⟩] else [] := by
  unfold completionsOf finish
  rw [List.filter_append]
  by_cases h : key = k <;> simp [h]

theorem Sound.fresh {row : FlightRow D} (h : w.Sound digest)
    (hrow : ∀ old, w.table.rows.get? key = some old → row.fencingToken = old.fencingToken + 1) :
    (∀ l ∈ w.leadersOf key, l.fencingToken < row.fencingToken) ∧
      ∀ c ∈ w.completionsOf key, c.fencingToken < row.fencingToken := by
  cases hold : w.table.rows.get? key with
  | none =>
    obtain ⟨hleaders, hcompletions⟩ := h.missing key hold
    rw [hleaders, hcompletions]
    exact ⟨nofun, nofun⟩
  | some old =>
    have hnext := hrow old hold
    constructor
    · intro l hl
      have hle := (h.accounted key old hold).leaders_le l hl
      omega
    · intro c hc
      have hle := (h.accounted key old hold).completions_le c hc
      omega

theorem Sound.elect {row : FlightRow D} (h : w.Sound digest)
    (hrow : ∀ old, w.table.rows.get? key = some old → row.fencingToken = old.fencingToken + 1)
    (hstate : row.state = .inProgress) : (w.elect key row).Sound digest := by
  obtain ⟨hleaders, hcompletions⟩ := h.fresh hrow
  refine ⟨?_, h.completions_increase, ?_, ?_⟩
  · intro k
    rw [leadersOf_elect]
    split_ifs with hk
    · subst hk
      exact pairwise_concat (h.leaders_increase key) hleaders
    · rw [List.append_nil]
      exact h.leaders_increase k
  · intro k hk
    have hne : key ≠ k := by
      rintro rfl
      cases (OrderedMap.get?_set_self _ _ _).symm.trans hk
    rw [leadersOf_elect, if_neg hne, List.append_nil]
    exact h.missing k ((OrderedMap.get?_set_of_ne _ _ hne.symm).symm.trans hk)
  · intro k row' hk
    rw [leadersOf_elect]
    by_cases hne : key = k
    · subst hne
      obtain rfl := Option.some.inj ((OrderedMap.get?_set_self _ _ _).symm.trans hk)
      rw [if_pos rfl]
      refine ⟨⟨_, List.getLast?_concat .., rfl, rfl, rfl, fun _ => rfl⟩, ?_, ?_, ?_, ?_⟩
      · intro l hl
        rcases List.mem_append.mp hl with hold | hnew
        · exact (hleaders l hold).le
        · obtain rfl := List.mem_singleton.mp hnew
          exact le_rfl
      · exact fun c hc => (hcompletions c hc).le
      · exact fun _ => hcompletions
      · exact fun hdone => absurd (hstate.symm.trans hdone) nofun
    · rw [if_neg hne, List.append_nil]
      exact h.accounted k row' ((OrderedMap.get?_set_of_ne _ _ (Ne.symm hne)).symm.trans hk)

theorem Sound.finish {key : String} {row : FlightRow D} {s scope : PremiseValidationScope}
    {document : D} {updatedAt expiresAt : Int} (h : w.Sound digest)
    (hscope : scopeIdentity digest s = .ok (scope, key))
    (hrow : w.table.rows.get? key = some row) (hstate : row.state = .inProgress) :
    (w.finish key { row with
      state := .completed
      receipt := some document
      updatedAt := updatedAt
      expiresAt := expiresAt } scope document).Sound digest := by
  have hold := h.accounted key row hrow
  refine ⟨h.leaders_increase, ?_, ?_, ?_⟩
  · intro k
    rw [completionsOf_finish]
    split_ifs with hk
    · subst hk
      exact pairwise_concat (h.completions_increase key) (hold.completions_lt hstate)
    · rw [List.append_nil]
      exact h.completions_increase k
  · intro k hk
    have hne : key ≠ k := by
      rintro rfl
      cases (OrderedMap.get?_set_self _ _ _).symm.trans hk
    rw [completionsOf_finish, if_neg hne, List.append_nil]
    exact h.missing k ((OrderedMap.get?_set_of_ne _ _ hne.symm).symm.trans hk)
  · intro k row' hk
    rw [completionsOf_finish]
    by_cases hne : key = k
    · subst hne
      obtain rfl := Option.some.inj ((OrderedMap.get?_set_self _ _ _).symm.trans hk)
      rw [if_pos rfl]
      obtain ⟨l, hlast, howner, hflight, htoken, -⟩ := hold.leader
      refine ⟨⟨l, hlast, howner, hflight, htoken, nofun⟩, hold.leaders_le, ?_, nofun,
        fun _ => ⟨_, List.getLast?_concat .., rfl, rfl, s, hscope⟩⟩
      intro c hc
      rcases List.mem_append.mp hc with hearlier | hnew
      · exact hold.completions_le c hearlier
      · obtain rfl := List.mem_singleton.mp hnew
        exact le_rfl
    · rw [if_neg hne, List.append_nil]
      exact h.accounted k row' ((OrderedMap.get?_set_of_ne _ _ (Ne.symm hne)).symm.trans hk)

theorem call_cases (w : Flights D) (digest : String → String) (column : R → ReceiptColumn D)
    (c : FlightCall R) :
    (∃ key row, (∃ normalized, scopeIdentity digest c.scope = .ok (normalized, key)) ∧
      (∀ old, w.table.rows.get? key = some old → old.expiresAt ≤ c.now ∧ row.fencingToken = old.fencingToken + 1) ∧
      row.state = .inProgress ∧ w.call digest column c = w.elect key row) ∨
    (∃ key row normalized document expiresAt, scopeIdentity digest c.scope = .ok (normalized, key) ∧
      w.table.rows.get? key = some row ∧ row.state = .inProgress ∧
      w.call digest column c = w.finish key { row with
        state := .completed
        receipt := some document
        updatedAt := c.now
        expiresAt := expiresAt } normalized document) ∨
    w.call digest column c = w := by
  cases c with
  | read scope now => exact .inr (Or.inr rfl)
  | claim scope owner flightId now leaseMs =>
    have hcall : w.call digest column (.claim scope owner flightId now leaseMs)
        = w.claim digest scope owner flightId now leaseMs := rfl
    unfold claim at hcall
    rcases w.table.claim_cases digest scope owner flightId now leaseMs with
      ⟨normalized, key, row, hscope, hrow, heq⟩ | ⟨htable, hanswer⟩
    · obtain ⟨howner, hflight, hstate, -, hold⟩ := FlightTable.claimedRow_spec hrow
      refine .inl ⟨key, row, ⟨normalized, hscope⟩, hold, hstate, ?_⟩
      rw [hcall, heq, hscope, Flights.elect, howner, hflight]
    · refine .inr (Or.inr ?_)
      have hnone : ∀ fencingToken expiresAt,
          (w.table.claim digest scope owner flightId now leaseMs).2 ≠ .leader fencingToken expiresAt := by
        intro fencingToken expiresAt
        rcases hanswer with ⟨_, _, -, hjoin⟩ | hinvalid | hunavailable
        · rw [hjoin]
          exact FlightTable.joinFlight_ne_leader _ _ _ _ _ _ _
        · rw [hinvalid]
          nofun
        · rw [hunavailable]
          nofun
      rw [hcall]
      dsimp only
      split
      case h_1 fencingToken expiresAt _ hleader => exact absurd hleader (hnone _ _)
      case h_2 => rw [htable]
  | complete scope owner flightId fencingToken receipt now retentionMs =>
    have hcall : w.call digest column
        (.complete scope owner flightId fencingToken receipt now retentionMs)
        = w.complete digest column scope owner flightId fencingToken receipt now retentionMs := rfl
    unfold complete at hcall
    rcases w.table.complete_cases digest column scope owner flightId fencingToken receipt now retentionMs with
      ⟨normalized, key, row, document, hscope, hdocument, hrow, hcompletes, heq⟩ | ⟨htable, hne⟩
    · obtain ⟨-, -, -, htoken, hstate, -⟩ := hcompletes
      refine .inr (Or.inl ⟨key, row, normalized, document, now + retentionMs, hscope, hrow, hstate, ?_⟩)
      rw [hcall, heq, hscope, hdocument, finish, ← htoken]
      rfl
    · refine .inr (Or.inr ?_)
      rw [hcall]
      dsimp only
      split
      case h_1 hcompleted => exact absurd hcompleted hne
      case h_2 => rw [htable]

theorem Sound.call (h : w.Sound digest) (c : FlightCall R) : (w.call digest column c).Sound digest := by
  rcases w.call_cases digest column c with
    ⟨key, row, -, hold, hstate, heq⟩ |
    ⟨key, row, normalized, document, expiresAt, hscope, hrow, hstate, heq⟩ | heq
  · rw [heq]
    exact h.elect (fun old hget => (hold old hget).2) hstate
  · rw [heq]
    exact h.finish hscope hrow hstate
  · rw [heq]
    exact h

theorem sound_of_reachable (h : (system digest column).Reachable w) : w.Sound digest := by
  refine h.invariant (Sound digest) ?_ ?_
  · rintro w rfl
    exact Sound.initial
  · rintro w c w' hw rfl
    exact hw.call c

/-- A call whose client does not see a completed flight expired leaves it as it is. -/
theorem call_keeps_completed {row : FlightRow D} {c : FlightCall R} (hrow : w.table.rows.get? key = some row)
    (hstate : row.state = .completed)
    (hnow : (∃ normalized, scopeIdentity digest c.scope = .ok (normalized, key)) → c.now < row.expiresAt) :
    (w.call digest column c).table.rows.get? key = some row := by
  rcases w.call_cases digest column c with
    ⟨key', new, hscope, hold, -, heq⟩ |
    ⟨key', old, normalized, document, expiresAt, -, hget, hprogress, heq⟩ | heq
  · rw [heq]
    have hne : key ≠ key' := by
      rintro rfl
      have hexpired := (hold row hrow).1
      have hlive := hnow hscope
      omega
    exact (OrderedMap.get?_set_of_ne _ _ hne).trans hrow
  · rw [heq]
    have hne : key ≠ key' := by
      rintro rfl
      obtain rfl := Option.some.inj (hrow.symm.trans hget)
      cases hstate.symm.trans hprogress
    exact (OrderedMap.get?_set_of_ne _ _ hne).trans hrow
  · rw [heq]
    exact hrow

end Flights

open Flights in
/-- The promises hold in every run. -/
theorem flights_safe (digest : String → String) (column : R → ReceiptColumn D) :
    FlightSafe digest column where
  leaders_increase := fun _ hw => (sound_of_reachable hw).leaders_increase
  completed_once := fun _ hw => (sound_of_reachable hw).completions_increase
  completed_by_leader := by
    intro w hw scope owner flightId fencingToken receipt now retentionMs hcompleted
    rcases w.table.complete_cases digest column scope owner flightId fencingToken receipt now
        retentionMs with
      ⟨normalized, key, row, document, hscope, -, hrow, hcompletes, -⟩ | ⟨-, hne⟩
    · obtain ⟨-, rfl, rfl, rfl, hstate, hnow⟩ := hcompletes
      obtain ⟨l, hlast, howner, hflight, htoken, hexpires⟩ :=
        ((sound_of_reachable hw).accounted key row hrow).leader
      exact ⟨normalized, key, l, hscope, hlast, howner, hflight, htoken, hexpires hstate ▸ hnow⟩
    · exact absurd hcompleted hne
  receipt_kept := by
    intro w _ key row hrow hstate w' hw'
    refine hw'.invariant (fun v => v.table.rows.get? key = some row) ?_ ?_
    · rintro v rfl
      exact hrow
    · rintro v c v' hv ⟨rfl, hnow⟩
      exact call_keeps_completed hv hstate hnow
  receipt_given := by
    intro w hw scope now fencingToken receipt hgives
    obtain ⟨normalized, key, row, hscope, hrow, hstate, rfl, hreceipt⟩ := hgives.row
    obtain ⟨c, hlast, htoken, hstored, s, hidentity⟩ :=
      ((sound_of_reachable hw).accounted key row hrow).completed hstate
    exact ⟨normalized, key, c, hscope, hlast, htoken,
      Option.some.inj (hstored.symm.trans hreceipt),
      fun hdigest => scope_eq_of_key hidentity hscope hdigest⟩

end Premise.Postgres
