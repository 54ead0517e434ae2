import Premise.Control.Except
import Premise.Postgres.HttpIdempotency
import Premise.Server.Proofs.IdempotencyProofs

/-!
# Proofs: HTTP idempotency over PostgreSQL

A row is inserted in progress, is taken over and completed while it is in progress, and is deleted. So a
stored response stays, and what a call receives is stored when it returns, unless it completes a row that
another claim has completed.
-/

namespace Premise.Postgres

open Collections Control Js Server

variable {R : Type} {digestOf : Json → String}

/-! ## Rows -/

/-- What a transaction does to one row, when it may insert one with these hashes. -/
inductive RowStep (Inserts : String → Prop) : Option (HttpIdempotencyRow R) → Option (HttpIdempotencyRow R) → Prop
  | same (row : Option (HttpIdempotencyRow R)) : RowStep Inserts row row
  | deleted (row : Option (HttpIdempotencyRow R)) : RowStep Inserts row none
  | inserted (hash token : String) (timestamp : Int) : Inserts hash →
      RowStep Inserts none (some ⟨hash, token, none, timestamp, []⟩)
  | takenOver (row : HttpIdempotencyRow R) (token : String) (timestamp : Int) : row.response = none →
      RowStep Inserts (some row) (some { row with leaseToken := token, updatedAt := timestamp })
  | completed (row : HttpIdempotencyRow R) (response : R) (token : String) (timestamp : Int) : row.response = none →
      RowStep Inserts (some row) (some { row with
        response := some response, updatedAt := timestamp, completedBy := row.completedBy ++ [token] })

theorem RowStep.mono {P Q : String → Prop} (hPQ : ∀ hash, P hash → Q hash) {row row' : Option (HttpIdempotencyRow R)}
    (h : RowStep P row row') : RowStep Q row row' := by
  cases h with
  | same => exact .same _
  | deleted => exact .deleted _
  | inserted hash token timestamp hP => exact .inserted hash token timestamp (hPQ hash hP)
  | takenOver row token timestamp hnone => exact .takenOver row token timestamp hnone
  | completed row response token timestamp hnone => exact .completed row response token timestamp hnone

variable {row : HttpIdempotencyRow R} {request : HttpIdempotencyRequest} {token : String} {key : HttpIdempotencyKey}
    {response : R} {timestamp : Int} {table' : HttpIdempotencyTable R}

namespace HttpIdempotencyTable

variable {table : HttpIdempotencyTable R}

theorem of_owned (h : table.owned request token = some row) :
    table.get? (rowKey request) = some row ∧ row.requestHash = request.requestHash ∧ row.response = none := by
  unfold owned at h
  rw [Option.filter_eq_some_iff] at h
  obtain ⟨hrow, howned⟩ := h
  rw [Bool.and_eq_true, Bool.and_eq_true] at howned
  exact ⟨hrow, of_decide_eq_true howned.1.1, Option.isNone_iff_eq_none.mp howned.1.2⟩

theorem rowStep_set (Inserts : String → Prop) {key' : HttpIdempotencyKey}
    (h : RowStep Inserts (table.get? key) (some row)) :
    RowStep (fun hash => key' = key ∧ Inserts hash) (table.get? key') ((table.set key row).get? key') := by
  by_cases hkey : key' = key
  · rw [hkey, OrderedMap.get?_set_self]
    exact h.mono fun hash hinserts => ⟨rfl, hinserts⟩
  · rw [OrderedMap.get?_set_of_ne _ _ hkey]
    exact .same _

theorem rowStep_claim (request : HttpIdempotencyRequest) (uuid : String) (timestamp now : Int)
    (key : HttpIdempotencyKey) :
    RowStep (fun hash => key = rowKey request ∧ hash = request.requestHash) (table.get? key)
      ((table.claimHttpIdempotency request uuid timestamp now).1.get? key) := by
  unfold claimHttpIdempotency
  cases hrow : table.get? (rowKey request) with
  | none =>
    refine rowStep_set (fun hash => hash = request.requestHash) ?_
    rw [hrow]
    exact .inserted _ _ _ rfl
  | some row =>
    dsimp only
    split
    · exact .same _
    · split
      · exact .same _
      · rename_i hresponse
        split
        · exact .same _
        · refine rowStep_set (fun hash => hash = request.requestHash) ?_
          rw [hrow]
          exact .takenOver row uuid timestamp hresponse

theorem rowStep_complete (h : table.completeHttpIdempotency request token response timestamp = .ok table')
    (key : HttpIdempotencyKey) : RowStep (fun _ => False) (table.get? key) (table'.get? key) := by
  unfold completeHttpIdempotency at h
  split at h
  · rename_i row howned
    obtain ⟨hrow, -, hresponse⟩ := of_owned howned
    cases h
    refine (rowStep_set (fun _ => False) ?_).mono (fun _ h => h.2)
    rw [hrow]
    exact .completed row response token timestamp hresponse
  · split at h
    · cases h
      exact .same _
    · cases h

theorem rowStep_release (request : HttpIdempotencyRequest) (token : String) (key : HttpIdempotencyKey) :
    RowStep (fun _ => False) (table.get? key) ((table.releaseHttpIdempotency request token).get? key) := by
  unfold releaseHttpIdempotency
  split_ifs
  · by_cases hkey : key = rowKey request
    · rw [hkey, OrderedMap.get?_erase_self]
      exact .deleted _
    · rw [OrderedMap.get?_erase_of_ne _ hkey]
      exact .same _
  · exact .same _

theorem get?_prune {tenantId : String} {options : HttpIdempotencyPruneOptions} {deleted : Nat}
    (h : table.pruneHttpIdempotency tenantId options timestamp = .ok (table', deleted)) (key : HttpIdempotencyKey) :
    table'.get? key = table.get? key ∨ table'.get? key = none := by
  unfold pruneHttpIdempotency at h
  obtain ⟨_, -, h⟩ := of_bind_ok h
  obtain ⟨rfl, -⟩ := Prod.mk.inj (Except.ok.inj h)
  have hfold : ∀ keys : List HttpIdempotencyKey, (keys.foldl OrderedMap.erase table).get? key
      = if key ∈ keys.map id then none else table.get? key :=
    fun keys => OrderedMap.get?_foldl_erase id keys table key
  rw [hfold]
  split_ifs
  · exact .inr rfl
  · exact .inl rfl

theorem of_claim_replay {uuid : String} {now : Int}
    (h : (table.claimHttpIdempotency request uuid timestamp now).2 = .replay response) :
    ∃ row, (table.claimHttpIdempotency request uuid timestamp now).1.get? (rowKey request) = some row
      ∧ row.requestHash = request.requestHash ∧ row.response = some response := by
  unfold claimHttpIdempotency at h ⊢
  cases hrow : table.get? (rowKey request) with
  | none =>
    rw [hrow] at h
    cases h
  | some row =>
    rw [hrow] at h
    dsimp only at h ⊢
    split at h
    · cases h
    · rename_i hhash
      rw [if_neg hhash]
      split at h
      · rename_i stored hresponse
        obtain rfl := HttpIdempotencyClaim.replay.inj h
        exact ⟨row, hrow, not_not.mp hhash, hresponse⟩
      · split at h <;> cases h

theorem of_complete (h : table.completeHttpIdempotency request token response timestamp = .ok table')
    (hundisputed : ∀ row, table.get? (rowKey request) = some row → row.requestHash = request.requestHash → ∀ stored ∈ row.response, stored = response) :
    
    ∃ row, table'.get? (rowKey request) = some row ∧ row.requestHash = request.requestHash
      ∧ row.response = some response := by
  unfold completeHttpIdempotency at h
  split at h
  · rename_i row howned
    obtain ⟨-, hhash, -⟩ := of_owned howned
    cases h
    exact ⟨_, OrderedMap.get?_set_self _ _ _, hhash, rfl⟩
  · split at h
    · rename_i hany
      cases h
      rw [Option.any_eq_true] at hany
      obtain ⟨row, hrow, hstored⟩ := hany
      rw [Bool.and_eq_true] at hstored
      obtain ⟨stored, hresponse⟩ := Option.isSome_iff_exists.mp hstored.1
      have hhash := of_decide_eq_true hstored.2
      refine ⟨row, hrow, hhash, ?_⟩
      rw [hresponse, hundisputed row hrow hhash stored hresponse]
    · cases h

end HttpIdempotencyTable

/-! ## Steps -/

variable {d : MutationCall R}

namespace HttpMutations

variable {w w' : HttpMutations R} {i : HttpStep R}

/-- The steps, with the phases of the calls that take them. -/
inductive Stepped (digestOf : Json → String) (w : HttpMutations R) : HttpStep R → HttpMutations R → Prop
  | call {input : MutationInput} {uuid : String} {timestamp now : Int} :
      Stepped digestOf w (.call input uuid timestamp now) (w.executeMutation (input.request digestOf) uuid timestamp now)
  | refuse {input : MutationInput} {err : JsError} : Stepped digestOf w (.refuse input err)
      { w with calls := w.calls ++ [⟨input.request digestOf, .threw (.thrown err)⟩] }
  | act {n : Nat} {request : HttpIdempotencyRequest} {token : String} : w.calls[n]? = some ⟨request, .claimed token⟩ →
      Stepped digestOf w (.act n) (w.setPhase n (.acting token))
  | settle {n : Nat} {request : HttpIdempotencyRequest} {token : String} {phase : MutationPhase R}
      {result : Except MutationError R} : w.calls[n]? = some ⟨request, .acting token⟩ → phase.token? = some token →
      (∀ t, phase ≠ .acting t) → Stepped digestOf w (.settle n result) (w.setPhase n phase)
  | awaitDurability {n : Nat} {request : HttpIdempotencyRequest} {token : String} {r : R} {phase : MutationPhase R}
      {result : Except MutationError Unit} : w.calls[n]? = some ⟨request, .acted token r⟩ → phase.token? = some token →
      (∀ t, phase ≠ .acting t) → Stepped digestOf w (.awaitDurability n result) (w.setPhase n phase)
  | complete {n : Nat} {request : HttpIdempotencyRequest} {token : String} {r : R} {timestamp : Int}
      {written : Except JsError Unit} : w.calls[n]? = some ⟨request, .durable token r⟩ →
      Stepped digestOf w (.complete n timestamp written) (w.complete n request token r timestamp written)
  | release {n : Nat} {request : HttpIdempotencyRequest} {token : String} {err : MutationError} {released : Bool} :
      w.calls[n]? = some ⟨request, .failing token err⟩ →
      Stepped digestOf w (.release n released) (w.release n request token err released)
  | prune {tenantId : String} {options : HttpIdempotencyPruneOptions} {timestamp : Int}
      {table : HttpIdempotencyTable R} : (∀ key, table.get? key = w.table.get? key ∨ table.get? key = none) →
      Stepped digestOf w (.prune tenantId options timestamp) { w with table }

theorem of_callStep {n : Nat} {f : MutationCall R → Option (HttpMutations R)} (h : w.callStep n f = some w') :
    ∃ request phase, w.calls[n]? = some ⟨request, phase⟩ ∧ f ⟨request, phase⟩ = some w' := by
  obtain ⟨c, hc, hstep⟩ := Option.bind_eq_some_iff.mp h
  exact ⟨c.request, c.phase, hc, hstep⟩

theorem stepped (h : w.step digestOf i = some w') : Stepped digestOf w i w' := by
  cases i with
  | call input uuid timestamp now =>
    cases h
    exact .call
  | refuse input err =>
    cases h
    exact .refuse
  | act n =>
    obtain ⟨request, phase, hc, h⟩ := of_callStep h
    cases phase with
    | claimed token =>
      cases h
      exact .act hc
    | _ => cases h
  | settle n result =>
    obtain ⟨request, phase, hc, h⟩ := of_callStep h
    cases phase with
    | acting token =>
      cases result with
      | ok r =>
        cases h
        exact .settle hc rfl fun _ => by simp
      | error err =>
        cases h
        exact .settle hc rfl fun _ => by simp
    | _ => cases h
  | awaitDurability n result =>
    obtain ⟨request, phase, hc, h⟩ := of_callStep h
    cases phase with
    | acted token r =>
      cases result with
      | ok _ =>
        cases h
        exact .awaitDurability hc rfl fun _ => by simp
      | error err =>
        cases h
        exact .awaitDurability hc rfl fun _ => by simp
    | _ => cases h
  | complete n timestamp written =>
    obtain ⟨request, phase, hc, h⟩ := of_callStep h
    cases phase with
    | durable token r =>
      cases h
      exact .complete hc
    | _ => cases h
  | release n released =>
    obtain ⟨request, phase, hc, h⟩ := of_callStep h
    cases phase with
    | failing token err =>
      cases h
      exact .release hc
    | _ => cases h
  | prune tenantId options timestamp =>
    unfold step at h
    dsimp only at h
    split at h
    · rename_i table deleted hprune
      cases h
      exact .prune (HttpIdempotencyTable.get?_prune hprune)
    · cases h
      exact .prune fun _ => .inl rfl

def Inserts (digestOf : Json → String) (i : HttpStep R) (key : HttpIdempotencyKey) (hash : String) : Prop :=
  ∃ input uuid timestamp now, i = .call input uuid timestamp now ∧ key = rowKey (input.request digestOf)
    ∧ hash = (input.request digestOf).requestHash

theorem Stepped.rowStep (h : Stepped digestOf w i w') (key : HttpIdempotencyKey) :
    RowStep (Inserts digestOf i key) (w.table.get? key) (w'.table.get? key) := by
  cases h with
  | @call input uuid timestamp now =>
    refine (HttpIdempotencyTable.rowStep_claim _ _ _ _ key).mono ?_
    rintro hash ⟨hkey, hhash⟩
    exact ⟨input, uuid, timestamp, now, rfl, hkey, hhash⟩
  | refuse | act | settle | awaitDurability => exact .same _
  | @complete n request token r timestamp written hc =>
    unfold HttpMutations.complete
    split
    · exact .same _
    · split
      · exact .same _
      · rename_i hcompleted
        exact (HttpIdempotencyTable.rowStep_complete hcompleted key).mono fun _ h => h.elim
  | @release n request token err released hc =>
    unfold HttpMutations.release
    cases released with
    | true => exact (HttpIdempotencyTable.rowStep_release request token key).mono (fun _ h => h.elim)
    | false => exact .same _
  | prune hrows =>
    obtain hsame | hnone := hrows key
    · rw [hsame]
      exact .same _
    · rw [hnone]
      exact .deleted _

theorem Stepped.stored (h : Stepped digestOf w i w') (hrow : w.table.get? key = some row)
    (hresponse : row.response = some response) (hkeeps : w.Keeps key i w') : w'.table.get? key = some row := by
  have hstep := h.rowStep key
  have hsome := hkeeps (by rw [hrow]; rfl)
  rw [hrow] at hstep
  generalize w'.table.get? key = row' at hstep hsome
  cases hstep with
  | same => rfl
  | deleted => cases hsome
  | takenOver _ _ _ hnone =>
    rw [hresponse] at hnone
    cases hnone
  | completed _ _ _ _ hnone =>
    rw [hresponse] at hnone
    cases hnone

/-- Rows in progress have not been completed, and others have been completed once. -/
def Once (w : HttpMutations R) : Prop :=
  ∀ key row, w.table.get? key = some row → row.completedBy.length ≤ 1 ∧ (row.response = none → row.completedBy = [])

theorem Once.step (hw : w.Once) (h : Stepped digestOf w i w') : w'.Once := by
  intro key row hrow
  have hstep := h.rowStep key
  rw [hrow] at hstep
  generalize hold : w.table.get? key = old at hstep
  cases hstep with
  | same => exact hw key row hold
  | inserted => exact ⟨Nat.zero_le 1, fun _ => rfl⟩
  | takenOver before token timestamp hnone => exact hw key before hold
  | completed before response token timestamp hnone =>
    refine ⟨?_, fun h => by cases h⟩
    rw [(hw key before hold).2 hnone]
    exact le_rfl

theorem once_of_reachable (h : (system R digestOf).Reachable w) : w.Once := by
  refine h.invariant Once ?_ fun _ _ _ hw hstep => hw.step (stepped hstep)
  rintro _ rfl key row hrow
  rw [OrderedMap.get?_empty] at hrow
  cases hrow

/-! ## Calls -/

theorem setPhase_cases {n j : Nat} {phase : MutationPhase R} {c : MutationCall R} (hc : w.calls[n]? = some c)
    (hd : (w.setPhase n phase).calls[j]? = some d) :
    (j = n ∧ d = { c with phase := phase }) ∨ (j ≠ n ∧ w.calls[j]? = some d) :=
  MutationCall.modify_cases hc hd

theorem Stepped.threw (h : Stepped digestOf w i w') {j : Nat} {err : MutationError}
    (hj : w.calls[j]? = some ⟨request, .threw err⟩) : w'.calls[j]? = some ⟨request, .threw err⟩ := by
  have happend : ∀ d : MutationCall R, (w.calls ++ [d])[j]? = some ⟨request, .threw err⟩ := by
    intro d
    obtain ⟨hlt, -⟩ := List.getElem?_eq_some_iff.mp hj
    rw [List.getElem?_append_left hlt]
    exact hj
  have hset : ∀ {n : Nat} {request' : HttpIdempotencyRequest} {phase phase' : MutationPhase R},
      w.calls[n]? = some ⟨request', phase⟩ → phase.token?.isSome →
        (w.setPhase n phase').calls[j]? = some ⟨request, .threw err⟩ := by
    intro n request' phase phase' hn hsome
    have hne : n ≠ j := by
      rintro rfl
      rw [hj] at hn
      obtain ⟨-, rfl⟩ := MutationCall.mk.inj (Option.some.inj hn)
      cases hsome
    show (w.calls.modify n _)[j]? = _
    rw [List.getElem?_modify_ne _ _ hne]
    exact hj
  cases h with
  | call | refuse => exact happend _
  | act hn => exact hset hn rfl
  | settle hn => exact hset hn rfl
  | awaitDurability hn => exact hset hn rfl
  | complete hn =>
    unfold HttpMutations.complete
    split
    · exact hset hn rfl
    · split
      · exact hset hn rfl
      · exact hset hn rfl
  | release hn => exact hset hn rfl
  | prune => exact hj

theorem claimPhase_ne_acting (request : HttpIdempotencyRequest) (claim : HttpIdempotencyClaim R) (token : String) :
    claimPhase request claim ≠ .acting token := by
  cases claim <;> simp [claimPhase]

theorem Stepped.acting (h : Stepped digestOf w i w') (hd : d ∈ w'.calls) (hacting : d.phase = .acting token) :
    d ∈ w.calls ∨ ∃ n c, i = .act n ∧ w.calls[n]? = some c ∧ c.request = d.request ∧ w'.table = w.table := by
  obtain ⟨j, hj⟩ := List.getElem?_of_mem hd
  have hset : ∀ {n : Nat} {c : MutationCall R} {phase : MutationPhase R}, w.calls[n]? = some c →
      (∀ t, phase ≠ .acting t) → (w.setPhase n phase).calls[j]? = some d → d ∈ w.calls := by
    intro n c phase hn hne hphase
    rcases setPhase_cases hn hphase with ⟨-, rfl⟩ | ⟨-, hold⟩
    · exact absurd hacting (hne token)
    · exact List.mem_of_getElem? hold
  cases h with
  | @call input uuid timestamp now =>
    obtain hold | hlast := List.mem_append.mp hd
    · exact .inl hold
    · obtain rfl := List.mem_singleton.mp hlast
      exact absurd hacting (claimPhase_ne_acting _ _ _)
  | refuse =>
    obtain hold | hlast := List.mem_append.mp hd
    · exact .inl hold
    · obtain rfl := List.mem_singleton.mp hlast
      cases hacting
  | @act n request token' hn =>
    rcases setPhase_cases hn hj with ⟨rfl, rfl⟩ | ⟨-, hold⟩
    · exact .inr ⟨_, _, rfl, hn, rfl, rfl⟩
    · exact .inl (List.mem_of_getElem? hold)
  | settle hn _ hne => exact .inl (hset hn hne hj)
  | awaitDurability hn _ hne => exact .inl (hset hn hne hj)
  | complete hn =>
    unfold HttpMutations.complete at hj
    split at hj
    · exact .inl (hset hn (fun _ => by simp) hj)
    · split at hj
      · exact .inl (hset hn (fun _ => by simp) hj)
      · exact .inl (hset hn (fun _ => by simp) hj)
  | release hn => exact .inl (hset hn (fun _ => by simp) hj)
  | prune => exact .inl hd

theorem of_received {c : MutationCall R} (h : received c = some response) : c.phase = .returned response := by
  unfold received at h
  split at h
  · rename_i hphase
    rw [hphase, Option.some.inj h]
  · cases h

theorem replay_of_claimPhase {claim : HttpIdempotencyClaim R} (h : claimPhase request claim = .returned response) :
    claim = .replay response := by
  cases claim with
  | replay r =>
    obtain rfl := MutationPhase.returned.inj h
    rfl
  | _ => cases h

theorem Stepped.received (h : Stepped digestOf w i w') (hundisputed : w.Undisputed i w') {j : Nat}
    (hd : w'.calls[j]? = some d) (hreceived : received d = some response) :
    w.calls[j]? = some d ∨ ∃ row, w'.table.get? (rowKey d.request) = some row
      ∧ row.requestHash = d.request.requestHash ∧ row.response = some response := by
  have hset : ∀ {n : Nat} {c : MutationCall R} {phase : MutationPhase R}, w.calls[n]? = some c →
      (∀ r, phase ≠ .returned r) → (w.setPhase n phase).calls[j]? = some d → w.calls[j]? = some d := by
    intro n c phase hn hne hphase
    rcases setPhase_cases hn hphase with ⟨-, rfl⟩ | ⟨-, hold⟩
    · exact absurd (of_received hreceived) (hne response)
    · exact hold
  have htoken : ∀ {phase : MutationPhase R} {token : String}, phase.token? = some token → ∀ r, phase ≠ .returned r := by
    rintro phase token htoken r rfl
    cases htoken
  cases h with
  | call =>
    rcases Mutations.getElem?_append_cases hd with hold | ⟨-, rfl⟩
    · exact .inl hold
    · refine .inr (HttpIdempotencyTable.of_claim_replay ?_)
      exact replay_of_claimPhase (of_received hreceived)
  | refuse =>
    rcases Mutations.getElem?_append_cases hd with hold | ⟨-, rfl⟩
    · exact .inl hold
    · cases hreceived
  | act hn => exact .inl (hset hn (fun _ => by simp) hd)
  | settle hn hphase => exact .inl (hset hn (htoken hphase) hd)
  | awaitDurability hn hphase => exact .inl (hset hn (htoken hphase) hd)
  | @complete n request token r timestamp written hn =>
    unfold HttpMutations.complete at hd ⊢
    split at hd
    · exact .inl (hset hn (fun _ => by simp) hd)
    · split at hd
      · exact .inl (hset hn (fun _ => by simp) hd)
      · rename_i table hcompleted
        rcases setPhase_cases hn hd with ⟨rfl, rfl⟩ | ⟨-, hold⟩
        · obtain rfl := Option.some.inj hreceived
          refine .inr ?_
          exact HttpIdempotencyTable.of_complete hcompleted (hundisputed j timestamp rfl request token r hn)
        · exact .inl hold
  | release hn => exact .inl (hset hn (fun _ => by simp) hd)
  | prune => exact .inl hd

def ActsForRow (w : HttpMutations R) : Prop :=
  ∀ c ∈ w.calls, ∀ token, c.phase = .acting token → ∀ row, w.table.get? (rowKey c.request) = some row →
    row.requestHash = c.request.requestHash

theorem ActsForRow.step (hw : w.ActsForRow) (h : Stepped digestOf w i w') (hexclusive : w.Exclusive digestOf i w') :
    w'.ActsForRow := by
  intro d hd token hacting row hrow
  rcases h.acting hd hacting with hold | ⟨n, c, rfl, hc, hrequest, htable⟩
  · have hstep := h.rowStep (rowKey d.request)
    rw [hrow] at hstep
    generalize hbefore : w.table.get? (rowKey d.request) = before at hstep
    cases hstep with
    | same => exact hw d hold token hacting row hbefore
    | inserted hash token' timestamp hinserts =>
      obtain ⟨input, uuid, timestamp', now, rfl, hkey, rfl⟩ := hinserts
      rw [hkey] at hbefore
      exact (hexclusive.2 input uuid timestamp' now rfl hbefore d hold token hacting hkey).symm
    | takenOver before _ _ _ => exact hw d hold token hacting before hbefore
    | completed before _ _ _ _ => exact hw d hold token hacting before hbefore
  · rw [htable, ← hrequest] at hrow
    rw [← hrequest]
    exact hexclusive.1 n rfl c hc row hrow

/-- The calls that have received a response since `start` have received the stored one. -/
def Received (start : HttpMutations R) (key : HttpIdempotencyKey) (w : HttpMutations R) : Prop :=
  ∀ (j : Nat) (c : MutationCall R) (response : R), w.calls[j]? = some c → received c = some response →
    rowKey c.request = key → (∀ c₀, start.calls[j]? = some c₀ → received c₀ = none) →
    ∃ row, w.table.get? key = some row ∧ row.requestHash = c.request.requestHash ∧ row.response = some response

theorem Received.step {start : HttpMutations R} {key : HttpIdempotencyKey} (hw : Received start key w)
    (h : Stepped digestOf w i w') (hkeeps : w.Keeps key i w') (hundisputed : w.Undisputed i w') :
    Received start key w' := by
  intro j c response hj hreceived hkey hstart
  rcases h.received hundisputed hj hreceived with hold | hstored
  · obtain ⟨row, hrow, hhash, hresponse⟩ := hw j c response hold hreceived hkey hstart
    exact ⟨row, h.stored hrow hresponse hkeeps, hhash, hresponse⟩
  · rw [hkey] at hstored
    exact hstored

end HttpMutations

namespace HttpMutations

def keepingStep (digestOf : Json → String) (key : HttpIdempotencyKey) (w : HttpMutations R) (i : HttpStep R) :
    Option (HttpMutations R) :=
  (w.step digestOf i).filter (fun w' => !(w.table.get? key).isSome || (w'.table.get? key).isSome)

theorem reachable_of_keepingStep (steps : List (HttpStep R))
    (hw : ((system R digestOf).restrict (Keeps key)).Reachable w)
    (h : steps.foldlM (keepingStep digestOf key) w = some w') :
    ((system R digestOf).restrict (Keeps key)).Reachable w' := by
  induction steps generalizing w with
  | nil =>
    cases h
    exact hw
  | cons i steps ih =>
    rw [List.foldlM_cons] at h
    obtain ⟨w₁, hfirst, hrest⟩ := Option.bind_eq_some_iff.mp h
    unfold keepingStep at hfirst
    rw [Option.filter_eq_some_iff] at hfirst
    obtain ⟨hstep, hkeeps⟩ := hfirst
    refine ih (hw.step (i := i) ⟨hstep, ?_⟩) hrest
    intro hsome
    simpa [hsome] using hkeeps

def slowInput : MutationInput where
  idempotencyKey := ⟨"k-1", by decide⟩
  operation := .register
  pathname := "/v2/register"
  principal := { tenantId := "acme" }
  payload := .null

def slowDigest : Json → String := fun _ => "digest"

def slowKey : HttpIdempotencyKey := rowKey (slowInput.request slowDigest)

/-- The second call takes the claim of the first over and completes, before the first does. -/
def slowRun : List (HttpStep Nat) :=
  [.call slowInput "token-1" 0 0, .act 0, .call slowInput "token-2" 60001000 60001, .act 1, .settle 1 (.ok 2),
    .awaitDurability 1 (.ok ()), .complete 1 60002000 (.ok ()), .settle 0 (.ok 1), .awaitDurability 0 (.ok ()),
    .complete 0 60003000 (.ok ())]

end HttpMutations

end Premise.Postgres
