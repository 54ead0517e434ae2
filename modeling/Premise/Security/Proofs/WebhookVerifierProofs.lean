import Premise.Security.Proofs.ReplayProofs
import Premise.Security.WebhookVerifier

/-!
# Proofs: failed webhook verifications

A verification that fails has claimed the body when its delivery id is refused. Apart from that the same keys are
claimed as before, and expired claims may be gone.
-/

namespace Premise.Security

open Collections Js

variable {t : ℚ}

namespace MemoryReplayStore

variable {s s' : MemoryReplayStore} {now now' : ℚ} {key k : String}

theorem Claimed.earlier (h : s.Claimed now' key) (hle : now ≤ now') : s.Claimed now key := by
  obtain ⟨expiry, hget, hlt⟩ := h
  exact ⟨expiry, hget, lt_of_le_of_lt hle hlt⟩

theorem claimed_deleteExpired (hle : now ≤ now') (key : String) :
    (s.deleteExpired now).Claimed now' key ↔ s.Claimed now' key := by
  unfold Claimed
  rw [get?_deleteExpired]
  constructor
  · rintro ⟨expiry, hget, hlt⟩
    exact ⟨expiry, (Option.filter_eq_some_iff.mp hget).1, hlt⟩
  · rintro ⟨expiry, hget, hlt⟩
    exact ⟨expiry, Option.filter_eq_some_iff.mpr ⟨hget, decide_eq_true (lt_of_le_of_lt hle hlt)⟩, hlt⟩

theorem deleteExpired_eq_self (h : ¬ s.HasExpired now) : s.deleteExpired now = s := by
  have hnone : s.entries.entries.filter (fun entry => decide (entry.2 ≤ now)) = [] := by
    rw [List.filter_eq_nil_iff]
    intro entry hentry hle
    exact h ⟨entry.1, entry.2, s.entries.get?_eq_some_iff.mpr hentry, of_decide_eq_true hle⟩
  unfold deleteExpired
  rw [hnone]
  rfl

theorem deleteExpired_ne (h : s.HasExpired now) : s.deleteExpired now ≠ s := by
  obtain ⟨key, expiry, hget, hle⟩ := h
  intro heq
  have hsame := get?_deleteExpired s now key
  rw [heq, hget, Option.filter_some, if_neg (by simpa using hle)] at hsame
  cases hsame

theorem claim_eq (s : MemoryReplayStore) (key : String) (expiresAt now : ℚ) :
    (s.Claimed now key ∧ s.claim key expiresAt now = (s.deleteExpired now, false)) ∨ (¬ s.Claimed now key ∧
        s.claim key expiresAt now = (⟨(s.deleteExpired now).entries.set key expiresAt⟩, true)) := by
  by_cases hclaimed : s.Claimed now key
  · rcases s.claim_cases key expiresAt now with ⟨-, hclaim⟩ | ⟨hnone, -⟩
    · exact .inl ⟨hclaimed, hclaim⟩
    · obtain ⟨expiry, hget, hlt⟩ := hclaimed
      rw [get?_deleteExpired, hget, Option.filter_some, if_pos (decide_eq_true hlt)] at hnone
      cases hnone
  · rcases s.claim_cases key expiresAt now with ⟨hstored, -⟩ | ⟨-, hclaim⟩
    · exact absurd hstored hclaimed
    · exact .inr ⟨hclaimed, hclaim⟩

theorem claimed_set (expiresAt : ℚ) : (⟨s.entries.set key expiresAt⟩ : MemoryReplayStore).Claimed now k ↔
      if k = key then now < expiresAt else s.Claimed now k := by
  unfold Claimed
  rw [OrderedMap.get?_set]
  split_ifs with hk
  · constructor
    · rintro ⟨expiry, hget, hlt⟩
      rw [Option.some.inj hget]
      exact hlt
    · exact fun hlt => ⟨expiresAt, rfl, hlt⟩
  · exact Iff.rfl

def Alike (t : ℚ) (s s' : MemoryReplayStore) : Prop := ∀ now, t ≤ now → ∀ key, s'.Claimed now key ↔ s.Claimed now key

theorem Alike.later {t' : ℚ} (h : Alike t s s') (hle : t ≤ t') : Alike t' s s' :=
  fun now hnow => h now (hle.trans hnow)

/-- Claims of stores that agree are answered the same, and the stores agree after them. -/
theorem Alike.claim (h : Alike t s s') (key : String) (expiresAt : ℚ) {now : ℚ} (hle : t ≤ now) :
    (s'.claim key expiresAt now).2 = (s.claim key expiresAt now).2 ∧
      Alike now (s.claim key expiresAt now).1 (s'.claim key expiresAt now).1 := by
  rcases s.claim_eq key expiresAt now with ⟨hclaimed, hclaim⟩ | ⟨hclaimed, hclaim⟩
  · rcases s'.claim_eq key expiresAt now with ⟨-, hclaim'⟩ | ⟨hclaimed', -⟩
    · rw [hclaim, hclaim']
      refine ⟨rfl, fun now' hnow key' => ?_⟩
      rw [claimed_deleteExpired hnow, claimed_deleteExpired hnow]
      exact h now' (hle.trans hnow) key'
    · exact absurd ((h now hle key).mpr hclaimed) hclaimed'
  · rcases s'.claim_eq key expiresAt now with ⟨hclaimed', -⟩ | ⟨-, hclaim'⟩
    · exact absurd ((h now hle key).mp hclaimed') hclaimed
    · rw [hclaim, hclaim']
      refine ⟨rfl, fun now' hnow key' => ?_⟩
      rw [claimed_set, claimed_set]
      split_ifs
      · exact Iff.rfl
      · rw [claimed_deleteExpired hnow, claimed_deleteExpired hnow]
        exact h now' (hle.trans hnow) key'

end MemoryReplayStore

open MemoryReplayStore

variable {g : ReplayGuard} {parse : String → Option ℚ}

theorem ReplayGuard.claim_admitted (g : ReplayGuard) (parse : String → Option ℚ) (s : MemoryReplayStore)
    (key : String) (timestamp : Option Timestamp) (now : Option ℚ) :
    g.claim parse s key timestamp now = match g.admitted parse key timestamp now with
      | none => (s, false)
      | some t => s.claim key (t + g.ttlMs) t := by
  unfold ReplayGuard.claim admitted
  cases hkey : identifier key "replay key" with
  | error err => rfl
  | ok replayKey =>
    obtain rfl := identifier_eq_ok hkey
    cases now with
    | none => rfl
    | some t =>
      dsimp only
      cases timestamp.elim (some t) (Timestamp.occurredAt parse) with
      | none => rfl
      | some occurredAt =>
        dsimp only
        split_ifs
        · rfl
        · rfl

variable {key : String}

theorem ReplayGuard.admitted_eq_some {timestamp : Option Timestamp} {now : Option ℚ}
    (h : g.admitted parse key timestamp now = some t) : now = some t := by
  unfold admitted at h
  split at h
  · split at h
    · cases h
    · split_ifs at h
      exact h
  · cases h

theorem ReplayGuard.claim_alike {s s' : MemoryReplayStore} {t' : ℚ} (h : Alike t s s') (key : String)
    (timestamp : Option Timestamp) (hle : t ≤ t') :
    (g.claim parse s' key timestamp (some t')).2 = (g.claim parse s key timestamp (some t')).2 ∧
      Alike t' (g.claim parse s key timestamp (some t')).1 (g.claim parse s' key timestamp (some t')).1 := by
  rw [g.claim_admitted, g.claim_admitted]
  cases hadmitted : g.admitted parse key timestamp (some t') with
  | none => exact ⟨rfl, h.later hle⟩
  | some now =>
    obtain rfl := Option.some.inj (admitted_eq_some hadmitted)
    exact h.claim key _ hle

/-! ## The verifier -/

variable {host : VerifierHost} {v : WebhookVerifier} {s s' : MemoryReplayStore} {request : WebhookVerificationRequest}
  {first second : Option ℚ}

variable {g : ReplayGuard} {left : MemoryReplayStore}

namespace WebhookVerifier

/-- What a verification that fails leaves. -/
inductive Fails (host : VerifierHost) (v : WebhookVerifier) (s : MemoryReplayStore)
    (request : WebhookVerificationRequest) (first second : Option ℚ) : MemoryReplayStore → Prop
  /-- The store is not reached. -/
  | unreached : (∀ g t, ¬ v.Reaches host request first g t) → Fails host v s request first second s
  /-- The body is claimed already. -/
  | replayed {g : ReplayGuard} {t : ℚ} : v.Reaches host request first g t → s.Claimed t (bodyKey host request) →
      Fails host v s request first second (s.deleteExpired t)
  /-- The body is claimed, and the delivery id is refused. -/
  | refused {g : ReplayGuard} {t : ℚ} {deliveryId : String} {left : MemoryReplayStore} :
      v.Reaches host request first g t → ¬ s.Claimed t (bodyKey host request) →
      request.deliveryId = some deliveryId →
      g.claim host.parse ⟨(s.deleteExpired t).entries.set (bodyKey host request) (t + g.ttlMs)⟩
        ("delivery:" ++ deliveryId) request.timestamp second = (left, false) →
      Fails host v s request first second left

theorem fails_of_verify (h : v.verify host s request first second = (s', false)) :
    Fails host v s request first second s' := by
  unfold verify at h
  split at h
  next hauthenticated =>
    obtain ⟨rfl, -⟩ := Prod.mk.inj h
    refine .unreached fun g t hreaches => ?_
    rw [hreaches.1] at hauthenticated
    cases hauthenticated
  next => cases (Prod.mk.inj h).2
  next g hauthenticated hguard =>
    rw [g.claim_admitted] at h
    cases hadmitted : g.admitted host.parse (bodyKey host request) request.timestamp first with
    | none =>
      rw [hadmitted] at h
      obtain ⟨rfl, -⟩ := Prod.mk.inj h
      refine .unreached fun g' t hreaches => ?_
      obtain ⟨-, hguard', hadmitted'⟩ := hreaches
      obtain rfl := Option.some.inj (hguard.symm.trans hguard')
      rw [hadmitted] at hadmitted'
      cases hadmitted'
    | some t =>
      have hreaches : v.Reaches host request first g t := ⟨hauthenticated, hguard, hadmitted⟩
      rw [hadmitted] at h
      dsimp only at h
      rcases s.claim_eq (bodyKey host request) (t + g.ttlMs) t with ⟨hclaimed, hclaim⟩ | ⟨hclaimed, hclaim⟩
      · rw [hclaim] at h
        obtain ⟨rfl, -⟩ := Prod.mk.inj h
        exact .replayed hreaches hclaimed
      · rw [hclaim] at h
        dsimp only at h
        split at h
        · cases (Prod.mk.inj h).2
        next deliveryId hdelivery => exact .refused hreaches hclaimed hdelivery h

theorem refused_cases {claimed : MemoryReplayStore}
    (h : g.claim host.parse claimed key request.timestamp second = (left, false)) :
    (g.admitted host.parse key request.timestamp second = none ∧ left = claimed) ∨
      ∃ t', g.admitted host.parse key request.timestamp second = some t' ∧ left = claimed.deleteExpired t' := by
  rw [g.claim_admitted] at h
  cases hadmitted : g.admitted host.parse key request.timestamp second with
  | none =>
    rw [hadmitted] at h
    exact .inl ⟨rfl, (Prod.mk.inj h).1.symm⟩
  | some t' =>
    rw [hadmitted] at h
    dsimp only at h
    rcases claimed.claim_eq key (t' + g.ttlMs) t' with ⟨-, hclaim⟩ | ⟨-, hclaim⟩
    · rw [hclaim] at h
      exact .inr ⟨t', rfl, (Prod.mk.inj h).1.symm⟩
    · rw [hclaim] at h
      cases (Prod.mk.inj h).2

theorem Reaches.instant (h : v.Reaches host request first g t) : first = some t :=
  ReplayGuard.admitted_eq_some h.2.2

theorem Reaches.unique {g' : ReplayGuard} {t' : ℚ} (h : v.Reaches host request first g t)
    (h' : v.Reaches host request first g' t') : g' = g ∧ t' = t := by
  obtain rfl := Option.some.inj (h.2.1.symm.trans h'.2.1)
  exact ⟨rfl, Option.some.inj (h'.instant.symm.trans h.instant)⟩

theorem claimed_left {now : ℚ} {deliveryId : String}
    (hclaim : g.claim host.parse ⟨(s.deleteExpired t).entries.set (bodyKey host request) (t + g.ttlMs)⟩ ("delivery:" ++ deliveryId) request.timestamp second = (left, false))
    (hle : t ≤ now) (hsecond : ∀ t' ∈ second, t' ≤ now) (key : String) :
    left.Claimed now key ↔ if key = bodyKey host request then now < t + g.ttlMs else s.Claimed now key := by
  have hset : (⟨(s.deleteExpired t).entries.set (bodyKey host request) (t + g.ttlMs)⟩ : MemoryReplayStore).Claimed now
      key ↔ if key = bodyKey host request then now < t + g.ttlMs else s.Claimed now key := by
    rw [claimed_set]
    split_ifs
    · exact Iff.rfl
    · exact claimed_deleteExpired hle key
  rcases refused_cases hclaim with ⟨-, rfl⟩ | ⟨t', hadmitted, rfl⟩
  · exact hset
  · rw [claimed_deleteExpired (hsecond t' (ReplayGuard.admitted_eq_some hadmitted)), hset]

theorem sameClaims_iff (h : Fails host v s request first second s') :
    SameClaims s s' first second ↔ ¬ v.ClaimsBody host s request first second := by
  cases h with
  | unreached hnot =>
    refine iff_of_true (fun now _ key => Iff.rfl) ?_
    rintro ⟨g, t, hreaches, -⟩
    exact hnot g t hreaches
  | @replayed g t hreaches hclaimed =>
    refine iff_of_true (fun now hpast key => claimed_deleteExpired (hpast.1 t hreaches.instant) key) ?_
    rintro ⟨g', t', hreaches', hnot, -⟩
    obtain ⟨rfl, rfl⟩ := hreaches.unique hreaches'
    exact hnot hclaimed
  | @refused g t deliveryId _ hreaches hclaimed hdelivery hclaim =>
    have httl := g.ttl_safe.2
    constructor
    · rintro hsame ⟨g', t', hreaches', -, hsecond⟩
      obtain ⟨rfl, rfl⟩ := hreaches.unique hreaches'
      -- The body is still claimed at the later reading of the clock.
      have hlater : ∃ now, t' ≤ now ∧ (∀ t'' ∈ second, t'' ≤ now) ∧ now < t' + g'.ttlMs := by
        cases second with
        | none => exact ⟨t', le_rfl, nofun, by linarith⟩
        | some t'' =>
          refine ⟨max t' t'', le_max_left _ _, ?_, max_lt (by linarith) (hsecond t'' rfl)⟩
          rintro u ⟨rfl⟩
          exact le_max_right _ _
      obtain ⟨now, hle, hpast, hlt⟩ := hlater
      have hbody := (claimed_left hclaim hle hpast (bodyKey host request)).mpr (by rw [if_pos rfl]; exact hlt)
      refine hclaimed (((hsame now ⟨?_, hpast⟩ _).mp hbody).earlier hle)
      intro u hu
      rw [hreaches.instant] at hu
      rw [← Option.some.inj hu]
      exact hle
    · intro hnot now hpast key
      have hle := hpast.1 t hreaches.instant
      rw [claimed_left hclaim hle hpast.2]
      split_ifs with hkey
      · subst hkey
        refine iff_of_false (fun hlt => ?_) (fun hstill => hclaimed (hstill.earlier hle))
        exact hnot ⟨g, t, hreaches, hclaimed, fun t' ht' => lt_of_le_of_lt (hpast.2 t' ht') hlt⟩
      · exact Iff.rfl

theorem deleteExpired_set {expiresAt now : ℚ} (hnew : s.entries.get? key = none) (hnone : ¬ s.HasExpired now)
    (hle : expiresAt ≤ now) :
    (⟨s.entries.set key expiresAt⟩ : MemoryReplayStore).deleteExpired now = s := by
  have hentries := OrderedMap.entries_set_of_not_mem s.entries (a := expiresAt) (s.entries.get?_eq_none_iff.mp hnew)
  have hold : s.entries.entries.filter (fun entry => decide (entry.2 ≤ now)) = [] := by
    rw [List.filter_eq_nil_iff]
    intro entry hentry hexpired
    exact hnone ⟨entry.1, entry.2, s.entries.get?_eq_some_iff.mpr hentry, of_decide_eq_true hexpired⟩
  have hlast : [(key, expiresAt)].filter (fun entry => decide (entry.2 ≤ now)) = [(key, expiresAt)] := by
    simp [hle]
  unfold deleteExpired
  rw [hentries, List.filter_append, hold, List.nil_append, hlast, List.foldl_cons, List.foldl_nil]
  have herase : (s.entries.set key expiresAt).erase key = s.entries := by
    have hsame : ((s.entries.set key expiresAt).erase key).entries = s.entries.entries := by
      unfold OrderedMap.erase
      dsimp only
      rw [hentries, List.filter_append, List.filter_cons_of_neg (by simp), List.filter_nil, List.append_nil]
      exact s.entries.erase_of_not_mem hnew
    generalize (s.entries.set key expiresAt).erase key = erased at hsame
    cases erased
    cases hs : s.entries
    rw [hs] at hsame
    cases hsame
    rfl
  rw [herase]

theorem get?_eq_none (hclaimed : ¬ s.Claimed t key) (hnone : ¬ s.HasExpired t) : s.entries.get? key = none := by
  cases hget : s.entries.get? key with
  | none => rfl
  | some expiry =>
    rcases le_or_gt expiry t with hle | hlt
    · exact absurd ⟨key, expiry, hget, hle⟩ hnone
    · exact absurd ⟨expiry, hget, hlt⟩ hclaimed

theorem refused_eq_iff {deliveryId : String} (hclaimed : ¬ s.Claimed t (bodyKey host request))
    (hclaim : g.claim host.parse ⟨(s.deleteExpired t).entries.set (bodyKey host request) (t + g.ttlMs)⟩ ("delivery:" ++ deliveryId) request.timestamp second = (left, false)) :
    
    left = s ↔ ¬ s.HasExpired t ∧ ∃ t', g.admitted host.parse ("delivery:" ++ deliveryId) request.timestamp second
      = some t' ∧ t + g.ttlMs ≤ t' ∧ ¬ s.HasExpired t' := by
  have httl := g.ttl_safe.2
  have hbody : s.entries.get? (bodyKey host request) ≠ some (t + g.ttlMs) :=
    fun hget => hclaimed ⟨_, hget, by linarith⟩
  rcases refused_cases hclaim with ⟨hadmitted, rfl⟩ | ⟨t', hadmitted, rfl⟩
  · refine iff_of_false (fun heq => hbody ?_) ?_
    · rw [← heq]
      exact (OrderedMap.get?_set _ _ _ _).trans (if_pos rfl)
    · rintro ⟨-, t', hsome, -⟩
      rw [hadmitted] at hsome
      cases hsome
  · -- What is stored in the end is stored in between, and has not expired.
    have hget : ∀ key, ((⟨(s.deleteExpired t).entries.set (bodyKey host request) (t + g.ttlMs)⟩ :
        MemoryReplayStore).deleteExpired t').entries.get? key
          = (if key = bodyKey host request then some (t + g.ttlMs)
            else (s.entries.get? key).filter (fun expiry => decide (t < expiry))).filter
              (fun expiry => decide (t' < expiry)) := by
      intro key
      rw [get?_deleteExpired]
      rw [OrderedMap.get?_set, get?_deleteExpired]
    constructor
    · intro heq
      rw [heq] at hget
      have hkept : ∀ key expiry, s.entries.get? key = some expiry → key ≠ bodyKey host request →
          t < expiry ∧ t' < expiry := by
        intro key expiry hstored hkey
        have hsame := hget key
        rw [if_neg hkey, hstored, eq_comm, Option.filter_eq_some_iff, Option.filter_eq_some_iff] at hsame
        exact ⟨of_decide_eq_true hsame.1.2, of_decide_eq_true hsame.2⟩
      have hnew : t + g.ttlMs ≤ t' ∧ s.entries.get? (bodyKey host request) = none := by
        have hsame := hget (bodyKey host request)
        rw [if_pos rfl, Option.filter_some] at hsame
        split_ifs at hsame with hlt
        · exact absurd hsame hbody
        · exact ⟨not_lt.mp (by simpa using hlt), hsame⟩
      have hother : ∀ key expiry, s.entries.get? key = some expiry → key ≠ bodyKey host request := by
        rintro key expiry hstored rfl
        rw [hnew.2] at hstored
        cases hstored
      refine ⟨?_, t', hadmitted, hnew.1, ?_⟩
      · rintro ⟨key, expiry, hstored, hle⟩
        exact absurd (hkept key expiry hstored (hother key expiry hstored)).1 (not_lt.mpr hle)
      · rintro ⟨key, expiry, hstored, hle⟩
        exact absurd (hkept key expiry hstored (hother key expiry hstored)).2 (not_lt.mpr hle)
    · rintro ⟨hnone, t'', hadmitted', hle, hnone'⟩
      obtain rfl := Option.some.inj (hadmitted.symm.trans hadmitted')
      rw [deleteExpired_eq_self hnone]
      exact deleteExpired_set (get?_eq_none hclaimed hnone) hnone' hle

theorem eq_iff_leavesStore (h : Fails host v s request first second s') :
    s' = s ↔ v.LeavesStore host s request first second := by
  unfold LeavesStore
  cases h with
  | unreached hnot => exact iff_of_true rfl (fun g t hreaches => absurd hreaches (hnot g t))
  | @replayed g t hreaches hclaimed =>
    constructor
    · intro heq g' t' hreaches'
      obtain ⟨rfl, rfl⟩ := hreaches.unique hreaches'
      exact ⟨fun hexpired => deleteExpired_ne hexpired heq, Or.inl hclaimed⟩
    · exact fun hleaves => deleteExpired_eq_self (hleaves g t hreaches).1
  | @refused g t deliveryId _ hreaches hclaimed hdelivery hclaim =>
    rw [refused_eq_iff hclaimed hclaim]
    constructor
    · rintro ⟨hnone, t', hadmitted, hle, hnone'⟩ g' u hreaches'
      obtain ⟨rfl, rfl⟩ := hreaches.unique hreaches'
      exact ⟨hnone, Or.inr ⟨deliveryId, t', hdelivery, hadmitted, hle, hnone'⟩⟩
    · intro hleaves
      obtain ⟨hnone, hclaimed' | ⟨deliveryId', t', hdelivery', hadmitted, hle, hnone'⟩⟩ := hleaves g t hreaches
      · exact absurd hclaimed' hclaimed
      · obtain rfl := Option.some.inj (hdelivery.symm.trans hdelivery')
        exact ⟨hnone, t', hadmitted, hle, hnone'⟩

theorem judgedAlike_of_sameClaims (h : SameClaims s s' first second) : v.JudgedAlike host s first second s' := by
  intro request' t t' hpast hle
  have halike : Alike t s s' := fun now hnow key =>
    h now ⟨fun u hu => (hpast.1 u hu).trans hnow, fun u hu => (hpast.2 u hu).trans hnow⟩ key
  unfold verify
  cases v.authenticated host request' with
  | false => rfl
  | true =>
    cases v.replayGuard with
    | none => rfl
    | some g =>
      have hclaim : _ ∧ Alike t (g.claim host.parse s (bodyKey host request') request'.timestamp (some t)).1 _ :=
        g.claim_alike halike (bodyKey host request') request'.timestamp le_rfl
      obtain ⟨hanswer, hnext⟩ := hclaim
      revert hanswer hnext
      dsimp only
      generalize g.claim host.parse s (bodyKey host request') request'.timestamp (some t) = before
      generalize g.claim host.parse s' (bodyKey host request') request'.timestamp (some t) = after
      obtain ⟨s1, answer⟩ := before
      obtain ⟨s2, answer'⟩ := after
      rintro ⟨⟩ hnext
      cases answer with
      | false => rfl
      | true =>
        cases request'.deliveryId with
        | none => rfl
        | some deliveryId => exact (g.claim_alike hnext _ request'.timestamp hle).1

end WebhookVerifier

/-- After a verification that fails, the same keys are claimed exactly when the request has not claimed its body, and
    then later requests are judged as without it; nothing at all changes exactly when nothing expires either. -/
theorem failed_verification_leaves (host : VerifierHost) (v : WebhookVerifier) (s s' : MemoryReplayStore)
    (request : WebhookVerificationRequest) (first second : Option ℚ)
    (h : v.verify host s request first second = (s', false)) :
    (s' = s ↔ v.LeavesStore host s request first second) ∧
      (SameClaims s s' first second ↔ ¬ v.ClaimsBody host s request first second) ∧
      (¬ v.ClaimsBody host s request first second → v.JudgedAlike host s first second s') := by
  have hfails := WebhookVerifier.fails_of_verify h
  refine ⟨WebhookVerifier.eq_iff_leavesStore hfails, WebhookVerifier.sameClaims_iff hfails, fun hnot => ?_⟩
  exact WebhookVerifier.judgedAlike_of_sameClaims ((WebhookVerifier.sameClaims_iff hfails).mpr hnot)

/-- The secret is `secret`, and the payload `event-1`. -/
def deliveryHost : VerifierHost where
  hmac := fun _ _ => "7e0c7a1df432ab553cfc900bd217997301d56704c9610b24db6835e3bed64ddf"
  sha256 := fun _ => "ce36863f51b6baf9d16397ffb3e9af506b284a816f72d487e55943c1fd974d6d"
  base64 := fun _ => "ZXZlbnQtMQ=="
  toLowerCase := String.toLower
  parse := fun _ => none

def deliveryVerifier : WebhookVerifier where
  secret := [115, 101, 99, 114, 101, 116]
  replayGuard := some ⟨300000, 300000, by decide +kernel, by decide +kernel⟩
  bindMetadata := false
  secret_ne := by decide

def deliveryOf (deliveryId : String) : WebhookVerificationRequest where
  payload := .text "event-1"
  signature := some "sha256=7e0c7a1df432ab553cfc900bd217997301d56704c9610b24db6835e3bed64ddf"
  deliveryId := some deliveryId

/-- The failed attempt claims the body, and the delivery is refused when its id is corrected. -/
theorem refused_delivery_claims_body : ∃ s', deliveryVerifier.verify deliveryHost {} (deliveryOf "delivery 1") (some 0)
      (some 0) = (s', false) ∧ s' ≠ {} ∧
    (deliveryVerifier.verify deliveryHost s' (deliveryOf "delivery-1") (some 1) (some 1)).2 = false ∧
    (deliveryVerifier.verify deliveryHost {} (deliveryOf "delivery-1") (some 1) (some 1)).2 = true := by
  refine ⟨(deliveryVerifier.verify deliveryHost {} (deliveryOf "delivery 1") (some 0) (some 0)).1, ?_, ?_, ?_, ?_⟩
  · exact Prod.ext rfl (by decide +kernel)
  · intro heq
    have hkeys := congrArg (fun s => s.entries.keys.length) heq
    exact absurd hkeys (by decide +kernel)
  · decide +kernel
  · decide +kernel

theorem failed_verification_leaves_delivery : ∃ s',
    ((s' = {} ↔ deliveryVerifier.LeavesStore deliveryHost {} (deliveryOf "delivery 1") (some 0) (some 0)) ∧
      (SameClaims {} s' (some 0) (some 0) ↔
        ¬ deliveryVerifier.ClaimsBody deliveryHost {} (deliveryOf "delivery 1") (some 0) (some 0)) ∧
      (¬ deliveryVerifier.ClaimsBody deliveryHost {} (deliveryOf "delivery 1") (some 0) (some 0) →
        deliveryVerifier.JudgedAlike deliveryHost {} (some 0) (some 0) s')) :=
  ⟨_, failed_verification_leaves deliveryHost deliveryVerifier {} _ (deliveryOf "delivery 1") (some 0) (some 0)
    (Prod.ext rfl (by decide +kernel))⟩

end Premise.Security
