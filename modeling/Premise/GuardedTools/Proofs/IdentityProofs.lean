import Premise.Collections.Lines
import Premise.GuardedTools.Proofs.ChainProofs
import Premise.GuardedTools.Proofs.TextProofs

/-!
# A result is replayed to the requests that run together with its own

An action gives its result to the calls whose key and fingerprint are its own, unless it is pending at
another tool. The two texts are equal exactly for requests that run together.
-/

namespace Premise.GuardedTools

open Collections Control Js Protocol
open SharedTools (refusal)

theorem ActionRequest.key_eq (r : ActionRequest) :
    r.key = r.resource.tenantId ++ "\x00" ++ r.idempotencyKey := by
  apply String.toList_injective
  unfold ActionRequest.key
  rw [String.toList_ofList, String.toList_append, String.toList_append, List.append_assoc]
  rfl

/-- The resource and the version of a request, as its fingerprint starts with them. -/
def ActionRequest.versionText (r : ActionRequest) : String :=
  r.resource.resource ++ "\x00" ++ r.expectedVersion.scheme ++ "\x00" ++ r.expectedVersion.token

theorem ActionRequest.toList_fingerprint (r : ActionRequest) :
    r.fingerprint.toList = r.versionText.toList ++ '\x00' :: canonicalText r.action := by
  have hnul : "\x00".toList = ['\x00'] := rfl
  unfold ActionRequest.fingerprint ActionRequest.versionText
  rw [String.toList_ofList]
  simp only [String.toList_append, hnul, List.append_assoc, List.cons_append, List.nil_append]

theorem split_last {α : Type} {sep : α} {l l' rest rest' : List α} (h : sep ∉ rest)
    (h' : sep ∉ rest') (heq : l ++ sep :: rest = l' ++ sep :: rest') : l = l' ∧ rest = rest' := by
  have hreverse : ∀ l rest : List α, (l ++ sep :: rest).reverse = rest.reverse ++ sep :: l.reverse := by
    intro l rest
    rw [List.reverse_append, List.reverse_cons, List.append_assoc]
    rfl
  have hline := congrArg List.reverse heq
  rw [hreverse, hreverse] at hline
  obtain ⟨hrest, hl⟩ := line_unique (fun hm => h (List.mem_reverse.mp hm))
    (fun hm => h' (List.mem_reverse.mp hm)) hline
  exact ⟨List.reverse_injective hl, List.reverse_injective hrest⟩

/-- An action that `act` accepts, with numbers that are numbers. -/
def ActionRequest.Proper (r : ActionRequest) : Prop :=
  r.action.Typed ∧ serializable r.action = true

theorem fingerprint_eq_iff {r s : ActionRequest} (hr : r.Proper) (hs : s.Proper) : r.fingerprint = s.fingerprint ↔
      r.versionText = s.versionText ∧ r.action.written.Same s.action.written := by
  rw [← canonicalText_eq_iff hr.1 hs.1 hr.2 hs.2]
  constructor
  · intro h
    have htexts := congrArg String.toList h
    rw [r.toList_fingerprint, s.toList_fingerprint] at htexts
    obtain ⟨hversion, haction⟩ := split_last (nul_notMem_canonicalText hr.1 hr.2)
      (nul_notMem_canonicalText hs.1 hs.2) htexts
    exact ⟨String.toList_injective hversion, haction⟩
  · rintro ⟨hversion, haction⟩
    apply String.toList_injective
    rw [r.toList_fingerprint, s.toList_fingerprint, hversion, haction]

theorem runsTogether_iff {r s : ActionRequest} (hr : r.Proper) (hs : s.Proper) :
    r.RunsTogether s ↔ r.key = s.key ∧ r.fingerprint = s.fingerprint := by
  rw [fingerprint_eq_iff hr hs, r.key_eq, s.key_eq]
  exact ⟨fun h => ⟨h.key, h.version, h.action⟩, fun h => ⟨h.1, h.2.1, h.2.2⟩⟩

namespace SharedTools

variable {R : Type} {w : SharedTools R}

theorem requestOf_proper {t : Nat} {input : PassedObject} {action : JsValue} {idempotencyKey : String}
    {request : ActionRequest} (haction : action.Typed)
    (h : w.requestOf t input action idempotencyKey = .ok request) : request.Proper := by
  unfold requestOf at h
  cases hstored : (w.tools t).ready.get? input.ref with
  | none =>
    rw [hstored] at h
    cases h
  | some stored =>
    rw [hstored] at h
    dsimp only at h
    split_ifs at h with _ _ hserializable
    cases h
    exact ⟨haction, by simpa using hserializable⟩

theorem proper_actions {maxEntries : Option Int} (h : (typedSystem R maxEntries).Reachable w) :
    ∀ a ∈ w.actions, a.request.Proper := by
  refine h.invariant (fun w => ∀ a ∈ w.actions, a.request.Proper) ?_ ?_
  · rintro w ⟨store, -, rfl⟩ a ha
    cases ha
  · rintro w i w' hproper ⟨hstep, htyped⟩
    have hphase : ∀ i phase, ∀ a ∈ (w.setPhase i phase).actions, a.request.Proper := by
      intro i phase a ha
      obtain ⟨j, hj⟩ := List.getElem?_of_mem ha
      rw [getElem?_setPhase] at hj
      split_ifs at hj
      · obtain ⟨b, hb, rfl⟩ := Option.map_eq_some_iff.mp hj
        exact hproper b (List.mem_of_getElem? hb)
      · exact hproper a (List.mem_of_getElem? hj)
    cases hstep with
    | check =>
      rcases check_cases w _ _ _ with heq | ⟨a, state, -, -, heq⟩
      all_goals
        rw [heq]
        exact hproper
    | revalidate =>
      rcases revalidate_cases w _ _ _ with heq | ⟨stored, version, -, -, -, heq⟩
      all_goals
        rw [heq]
        exact hproper
    | act =>
      rcases act_cases w _ _ _ _ with heq | ⟨request, inFlight, store, hrequest, heq⟩
      · rw [heq]
        exact hproper
      · rw [heq]
        intro a ha
        rcases List.mem_append.mp ha with ha | ha
        · exact hproper a ha
        · obtain rfl := List.mem_singleton.mp ha
          exact requestOf_proper htyped hrequest
    | perform | invoke | answer | timeout => exact hphase _ _
    | @complete i t request response ha =>
      unfold SharedTools.complete
      cases w.store.complete request.key request.fingerprint response with
      | ok | error => exact hphase _ _
    | @clean i t request result ha =>
      unfold SharedTools.clean
      cases (w.tools t).inFlight.get? request.key with
      | none => exact hphase _ _
      | some pending =>
        dsimp only
        split_ifs
        · exact hphase _ _
        · exact hphase _ _

/-! ## Replays -/

theorem getElem?_length_ne {i : Nat} {a : ClaimedAction R} (ha : w.actions[i]? = some a) : w.actions.length ≠ i :=
  ne_of_gt (List.getElem?_eq_some_iff.mp ha).1

theorem Sound.givesResult_iff (h : w.Sound) {t i : Nat} {a : ClaimedAction R}
    {request : ActionRequest} (ha : w.actions[i]? = some a) :
    GivesResult i a request (w.actOn t request).2 ↔ (a.tool = t ∨ a.phase.value.isSome) ∧
      request.key = a.request.key ∧ request.fingerprint = a.request.fingerprint := by
  have hentry := h.entry i a ha
  rcases h.actOn_cases t request with ⟨heq, hfresh⟩ | ⟨heq, hfresh⟩ | ⟨j, b, hb, hkey, heq⟩
  · rw [heq]
    refine iff_of_false ?_ ?_
    · rintro (hpromise | ⟨-, result, -, hrecorded⟩)
      · exact getElem?_length_ne ha (ActReply.promise.inj hpromise)
      · cases hrecorded
    · rintro ⟨-, hkey, -⟩
      rw [← hkey, hfresh] at hentry
      cases hentry
  · rw [heq]
    refine iff_of_false ?_ ?_
    · rintro (hpromise | ⟨-, result, -, hrecorded⟩)
      · cases hpromise
      · cases hrecorded
    · rintro ⟨-, hkey, -⟩
      rw [← hkey, hfresh] at hentry
      cases hentry
  · rw [heq]
    by_cases hij : j = i
    · obtain rfl := hij
      obtain rfl : a = b := Option.some.inj (ha.symm.trans hb)
      by_cases hfingerprint : a.request.fingerprint = request.fingerprint
      · rw [if_neg (not_not.mpr hfingerprint)]
        cases hflying : (w.tools t).inFlight.get? request.key with
        | some f =>
          obtain ⟨c, hc, htool, hkeyc, -⟩ := h.flying t request.key f hflying
          obtain ⟨-, rfl⟩ := h.same ha hc (hkey.trans hkeyc.symm)
          exact iff_of_true (Or.inl rfl) ⟨Or.inl htool, hkey.symm, hfingerprint.symm⟩
        | none =>
          have hlanded : a.phase.value = none → a.tool ≠ t := by
            rintro hnone rfl
            have hflying' := h.unsettled j a ha hnone
            rw [hkey, hflying] at hflying'
            cases hflying'
          cases hvalue : a.phase.value with
          | none =>
            refine iff_of_false ?_ fun hgives => ?_
            · rintro (hpromise | ⟨-, result, hresult, -⟩)
              · cases hpromise
              · rw [hvalue] at hresult
                cases hresult
            · rcases hgives.1 with htool | hsome
              · exact hlanded hvalue htool
              · cases hsome
          | some result =>
            exact iff_of_true (Or.inr ⟨hkey, result, hvalue, rfl⟩) ⟨Or.inr rfl, hkey.symm, hfingerprint.symm⟩
      · rw [if_pos hfingerprint]
        refine iff_of_false ?_ fun hgives => hfingerprint hgives.2.2.symm
        rintro (hpromise | ⟨-, result, -, hrecorded⟩)
        · cases hpromise
        · cases hrecorded
    · -- the action of the key is another one
      have hother : a.request.key ≠ request.key := fun hkeya =>
        hij (h.same hb ha (hkey.trans hkeya.symm)).1
      refine iff_of_false ?_ fun hgives => hother hgives.2.1.symm
      rintro (hpromise | ⟨hkeya, -⟩)
      · split_ifs at hpromise
        · exact hij (ActReply.promise.inj hpromise)
        · cases hvalue : b.phase.value with
          | none =>
            rw [hvalue] at hpromise
            cases hpromise
          | some result =>
            rw [hvalue] at hpromise
            cases hpromise
      · exact hother hkeya

theorem act_givesResult_iff {maxEntries : Option Int} (h : (typedSystem R maxEntries).Reachable w)
    {t i : Nat} {input : PassedObject} {action : JsValue} {idempotencyKey : String}
    {request : ActionRequest} {a : ClaimedAction R} (haction : action.Typed)
    (hrequest : w.requestOf t input action idempotencyKey = .ok request)
    (ha : w.actions[i]? = some a) :
    GivesResult i a request (w.act t input action idempotencyKey).2 ↔
      (a.tool = t ∨ a.phase.value.isSome) ∧ request.RunsTogether a.request := by
  have hreply : (w.act t input action idempotencyKey).2 = (w.actOn t request).2 := by
    unfold act
    rw [hrequest]
  have hrequest' := requestOf_proper haction hrequest
  have ha' := proper_actions h a (List.mem_of_getElem? ha)
  rw [hreply, (Sound.reachable h.of_restrict).givesResult_iff ha, runsTogether_iff hrequest' ha']

def note : Observed := ⟨⟨"t", "a"⟩, ⟨"c", "1"⟩⟩

/-- The proof of the one revalidation of `note`. -/
def noteProof : PassedObject := ⟨1, note.resource, some note.version⟩

def dated (date : Nat) : JsValue := .object [("at", .exotic date)]

def dateText (date : Nat) : JsValue :=
  .string (if date = 0 then "1970-01-01T00:00:00.000Z" else "1970-01-01T00:00:00.001Z")

def dateClaimed : SharedTools Nat :=
  ((prove { store := ⟨∅, 1024⟩ } note).act 0 noteProof (dated 0) "k").1

theorem typed_dated (date : Nat) : (dated date).Typed := ⟨trivial, trivial⟩

theorem dateClaimed_reachable : (typedSystem Nat none).Reachable dateClaimed := by
  have hinit : (typedSystem Nat none).Reachable { store := ⟨∅, 1024⟩ } := .init ⟨_, rfl, rfl⟩
  exact .step (.step (.step hinit ⟨.check, trivial⟩) ⟨.revalidate, trivial⟩) ⟨.act, typed_dated 0⟩

end SharedTools

end Premise.GuardedTools
