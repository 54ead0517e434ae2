import Premise.Security.Replay

/-!
# Proofs: the replay guard

An accepted claim is stored until it expires. While its timestamp is in the window the claim is stored,
if it expires after the window of its timestamp has closed: the first claim is made `maxClockSkewMs`
before the timestamp at the earliest, and the window closes `maxClockSkewMs` after it.
-/

namespace Premise.Security

open Collections Control Js

variable {g : ReplayGuard} {parse : String → Option ℚ}

namespace MemoryReplayStore

theorem get?_deleteExpired (s : MemoryReplayStore) (now : ℚ) (key : String) : (s.deleteExpired now).entries.get? key =
      (s.entries.get? key).filter (fun expiry => decide (now < expiry)) := by
  unfold deleteExpired
  rw [OrderedMap.get?_foldl_erase_filter]
  congr 1
  funext expiry
  rw [← decide_not, decide_eq_decide, not_le]

theorem claim_cases (s : MemoryReplayStore) (key : String) (expiresAt now : ℚ) :
    ((∃ expiry, s.entries.get? key = some expiry ∧ now < expiry) ∧
      s.claim key expiresAt now = (s.deleteExpired now, false)) ∨
    ((s.deleteExpired now).entries.get? key = none ∧
      s.claim key expiresAt now = (⟨(s.deleteExpired now).entries.set key expiresAt⟩, true)) := by
  unfold claim
  dsimp only
  cases hget : (s.deleteExpired now).entries.get? key with
  | none => exact .inr ⟨rfl, rfl⟩
  | some expiry =>
    have hstored := hget
    rw [get?_deleteExpired, Option.filter_eq_some_iff] at hstored
    have hlt : now < expiry := of_decide_eq_true hstored.2
    refine .inl ⟨⟨expiry, hstored.1, hlt⟩, ?_⟩
    rw [Option.any_some, if_pos (decide_eq_true hlt)]

theorem claim_of_expired {s : MemoryReplayStore} {key : String} {now : ℚ}
    (h : ∀ expiry ∈ s.entries.get? key, expiry ≤ now) (expiresAt : ℚ) :
    s.claim key expiresAt now = (⟨(s.deleteExpired now).entries.set key expiresAt⟩, true) := by
  rcases s.claim_cases key expiresAt now with ⟨⟨expiry, hget, hlt⟩, -⟩ | ⟨-, hclaim⟩
  · exact absurd (h expiry hget) (not_le.mpr hlt)
  · exact hclaim

end MemoryReplayStore

theorem ReplayGuard.claim_cases (g : ReplayGuard) (parse : String → Option ℚ) (s : MemoryReplayStore)
    (key : String) (timestamp : Option Timestamp) (now : Option ℚ) :
    g.claim parse s key timestamp now = (s, false) ∨
    ∃ t, now = some t ∧ (∀ given ∈ timestamp, ∃ occurredAt, given.occurredAt parse = some occurredAt ∧
        |t - occurredAt| ≤ g.maxClockSkewMs) ∧
      g.claim parse s key timestamp now = s.claim key (t + g.ttlMs) t := by
  unfold ReplayGuard.claim
  cases hkey : identifier key "replay key" with
  | error err => exact .inl rfl
  | ok replayKey =>
    obtain rfl := identifier_eq_ok hkey
    cases now with
    | none => exact .inl rfl
    | some t =>
      dsimp only
      split
      · exact .inl rfl
      · rename_i occurredAt hoccurred
        split_ifs with hwindow
        · exact .inl rfl
        · refine .inr ⟨t, rfl, ?_, rfl⟩
          rintro given hgiven
          rw [Option.mem_def] at hgiven
          subst hgiven
          exact ⟨occurredAt, hoccurred, not_lt.mp hwindow⟩

/-! ## Runs -/

/-- The claim of an accepted pair is stored until the window of its timestamp has closed. -/
def Guarded (g : ReplayGuard) (parse : String → Option ℚ) (w : ReplayHistory)
    (pair : String × Timestamp) : Prop :=
  ∃ occurredAt, pair.2.occurredAt parse = some occurredAt ∧
    ((∃ expiry, w.store.entries.get? pair.1 = some expiry ∧ occurredAt + g.maxClockSkewMs < expiry) ∨
      ∃ last, w.last = some last ∧ occurredAt + g.maxClockSkewMs < last)

structure OnceSoFar (g : ReplayGuard) (parse : String → Option ℚ) (w : ReplayHistory) : Prop where
  nodup : w.accepted.Nodup
  guarded : ∀ pair ∈ w.accepted, Guarded g parse w pair

theorem Guarded.claim {w w' : ReplayHistory} {pair : String × Timestamp} {key : String}
    {expiresAt now : ℚ} (h : Guarded g parse w pair) (hlast : ∀ last ∈ w.last, last ≤ now)
    (hstore : w'.store = (w.store.claim key expiresAt now).1) (hnow : w'.last = some now) :
    Guarded g parse w' pair := by
  obtain ⟨occurredAt, hoccurred, hstored | ⟨last, hsome, hclosed⟩⟩ := h
  · obtain ⟨expiry, hget, hlate⟩ := hstored
    refine ⟨occurredAt, hoccurred, ?_⟩
    by_cases hexpired : expiry ≤ now
    · exact .inr ⟨now, hnow, hlate.trans_le hexpired⟩
    have hkept : (w.store.deleteExpired now).entries.get? pair.1 = some expiry := by
      rw [MemoryReplayStore.get?_deleteExpired, hget, Option.filter_some, if_pos (decide_eq_true (not_le.mp hexpired))]
    refine .inl ⟨expiry, ?_, hlate⟩
    rw [hstore]
    rcases w.store.claim_cases key expiresAt now with ⟨-, hclaim⟩ | ⟨hfree, hclaim⟩
    · rw [hclaim]
      exact hkept
    · have hne : pair.1 ≠ key := by
        intro heq
        rw [heq, hfree] at hkept
        cases hkept
      rw [hclaim, OrderedMap.get?_set_of_ne _ _ hne]
      exact hkept
  · exact ⟨occurredAt, hoccurred, Or.inr ⟨now, hnow, hclosed.trans_le (hlast last hsome)⟩⟩

theorem notMem_of_accepted {w : ReplayHistory} (hw : OnceSoFar g parse w) {key : String}
    {given : Timestamp} {occurredAt now : ℚ} (hoccurred : given.occurredAt parse = some occurredAt)
    (hwindow : |now - occurredAt| ≤ g.maxClockSkewMs) (hlast : ∀ last ∈ w.last, last ≤ now)
    (hfree : (w.store.deleteExpired now).entries.get? key = none) : (key, given) ∉ w.accepted := by
  intro hmem
  have hopen : now ≤ occurredAt + g.maxClockSkewMs := by
    have := le_abs_self (now - occurredAt)
    linarith
  obtain ⟨occurred, hsome, hstored | ⟨last, heq, hclosed⟩⟩ := hw.guarded _ hmem
  all_goals
    rw [hoccurred] at hsome
    cases hsome
  · obtain ⟨expiry, hget, hlate⟩ := hstored
    rw [MemoryReplayStore.get?_deleteExpired, hget, Option.filter_some,
      if_pos (decide_eq_true (hopen.trans_lt hlate))] at hfree
    cases hfree
  · have := hlast last heq
    linarith

theorem onceSoFar_claim (httl : 2 * g.maxClockSkewMs < g.ttlMs) {w : ReplayHistory}
    (hw : OnceSoFar g parse w) {call : ReplayClaim}
    (hmono : ∀ now ∈ call.now, ∀ last ∈ w.last, last ≤ now) :
    OnceSoFar g parse (w.claim g parse call) := by
  obtain ⟨key, timestamp, now⟩ := call
  rcases g.claim_cases parse w.store key timestamp now with hrefused | ⟨t, rfl, hwindow, hclaim⟩
  · -- The store is not touched; the clock may have gone on.
    have haccepted : (w.claim g parse ⟨key, timestamp, now⟩).accepted = w.accepted := by
      simp [ReplayHistory.claim, hrefused]
    refine ⟨haccepted ▸ hw.nodup, ?_⟩
    rw [haccepted]
    rintro pair hpair
    obtain ⟨occurredAt, hoccurred, hstored | ⟨last, hlast, hclosed⟩⟩ := hw.guarded pair hpair
    · exact ⟨occurredAt, hoccurred, Or.inl (by simpa [ReplayHistory.claim, hrefused] using hstored)⟩
    · refine ⟨occurredAt, hoccurred, Or.inr ?_⟩
      cases now with
      | none => exact ⟨last, by simpa [ReplayHistory.claim] using hlast, hclosed⟩
      | some t => exact ⟨t, by simp [ReplayHistory.claim], hclosed.trans_le (hmono t rfl last hlast)⟩
  · have hlast : ∀ last ∈ w.last, last ≤ t := hmono t rfl
    have hstore : (w.claim g parse ⟨key, timestamp, some t⟩).store = (w.store.claim key (t + g.ttlMs) t).1 := by
      simp [ReplayHistory.claim, hclaim]
    have hnow : (w.claim g parse ⟨key, timestamp, some t⟩).last = some t := rfl
    have hold : ∀ pair ∈ w.accepted, Guarded g parse (w.claim g parse ⟨key, timestamp, some t⟩) pair :=
      fun pair hpair => (hw.guarded pair hpair).claim hlast hstore hnow
    rcases w.store.claim_cases key (t + g.ttlMs) t with ⟨-, hresult⟩ | ⟨hfree, hresult⟩
    · have haccepted : (w.claim g parse ⟨key, timestamp, some t⟩).accepted = w.accepted := by
        simp [ReplayHistory.claim, hclaim, hresult]
      exact ⟨haccepted ▸ hw.nodup, haccepted ▸ hold⟩
    · have haccepted : (w.claim g parse ⟨key, timestamp, some t⟩).accepted =
          w.accepted ++ timestamp.toList.map (Prod.mk key) := by
        simp [ReplayHistory.claim, hclaim, hresult]
      cases timestamp with
      | none =>
        rw [Option.toList_none, List.map_nil, List.append_nil] at haccepted
        exact ⟨haccepted ▸ hw.nodup, haccepted ▸ hold⟩
      | some given =>
        obtain ⟨occurredAt, hoccurred, hin⟩ := hwindow given rfl
        have hnew := notMem_of_accepted hw hoccurred hin hlast hfree
        have hguarded : Guarded g parse (w.claim g parse ⟨key, some given, some t⟩) (key, given) := by
          refine ⟨occurredAt, hoccurred, Or.inl ⟨t + g.ttlMs, ?_, ?_⟩⟩
          · rw [hstore, hresult]
            exact OrderedMap.get?_set_self _ _ _
          · have hearliest := neg_abs_le (t - occurredAt)
            linarith
        constructor
        · rw [haccepted]
          exact List.nodup_append.mpr ⟨hw.nodup, List.nodup_singleton _, by
            rintro pair hpair _ hmem rfl
            rw [Option.toList_some, List.map_singleton, List.mem_singleton] at hmem
            exact hnew (hmem ▸ hpair)⟩
        · rw [haccepted]
          intro pair hpair
          rcases List.mem_append.mp hpair with hpair | hpair
          · exact hold pair hpair
          · rw [Option.toList_some, List.map_singleton, List.mem_singleton] at hpair
            exact hpair ▸ hguarded

theorem acceptsOnce_of_lt (httl : 2 * g.maxClockSkewMs < g.ttlMs) : g.AcceptsOnce parse := by
  intro w hw
  refine (hw.invariant (OnceSoFar g parse) ?_ ?_).nodup
  · rintro w rfl
    exact ⟨List.nodup_nil, by simp⟩
  · rintro w call w' hinv ⟨hmono, rfl⟩
    exact onceSoFar_claim httl hinv hmono

def claimAt (g : ReplayGuard) (now : ℚ) : ReplayClaim :=
  ⟨"delivery", some (.number (some g.maxClockSkewMs)), some now⟩

theorem claim_claimAt (s : MemoryReplayStore) {now : ℚ} (hnow : now = 0 ∨ now = 2 * g.maxClockSkewMs) :
    g.claim parse s (claimAt g now).key (claimAt g now).timestamp (claimAt g now).now =
      s.claim "delivery" (now + g.ttlMs) now := by
  have hkey : identifier "delivery" "replay key" = .ok "delivery" := by decide +kernel
  have hwindow : ¬ |now - g.maxClockSkewMs| > g.maxClockSkewMs := by
    rw [not_lt, abs_le]
    have := g.skew_safe.2
    rcases hnow with rfl | rfl
    · constructor <;> linarith
    · constructor <;> linarith
  simp only [ReplayGuard.claim, claimAt, hkey, Option.elim_some, Timestamp.occurredAt, if_neg hwindow]

theorem claim_accepted (g : ReplayGuard) (parse : String → Option ℚ) (w : ReplayHistory) {now : ℚ}
    (hnow : now = 0 ∨ now = 2 * g.maxClockSkewMs)
    (hexpired : ∀ expiry ∈ w.store.entries.get? "delivery", expiry ≤ now) :
    w.claim g parse (claimAt g now) =
      { store := ⟨(w.store.deleteExpired now).entries.set "delivery" (now + g.ttlMs)⟩
        accepted := w.accepted ++ [("delivery", .number (some g.maxClockSkewMs))]
        last := some now } := by
  unfold ReplayHistory.claim
  rw [claim_claimAt w.store hnow, MemoryReplayStore.claim_of_expired hexpired]
  rfl

/-- A claim that expires before the window of its timestamp closes is accepted again. -/
theorem accepted_twice (parse : String → Option ℚ) (httl : g.ttlMs ≤ 2 * g.maxClockSkewMs) :
    ∃ w, (ReplayHistory.system g parse).Reachable w ∧
      w.accepted = [("delivery", .number (some g.maxClockSkewMs)),
        ("delivery", .number (some g.maxClockSkewMs))] := by
  have hskew := g.skew_safe.2
  have hfirst := claim_accepted g parse {} (Or.inl rfl) (by simp)
  have hreached := System.Reachable.step (M := ReplayHistory.system g parse) (.init rfl)
    (i := claimAt g 0) ⟨by simp, hfirst.symm⟩
  have hsecond := claim_accepted g parse
    { store := ⟨(({} : MemoryReplayStore).deleteExpired 0).entries.set "delivery" (0 + g.ttlMs)⟩
      accepted := [] ++ [("delivery", .number (some g.maxClockSkewMs))]
      last := some 0 } (Or.inr rfl) (by simpa using httl)
  refine ⟨_, System.Reachable.step hreached (i := claimAt g (2 * g.maxClockSkewMs)) ⟨?_, hsecond.symm⟩, rfl⟩
  rintro now ⟨⟩ last ⟨⟩
  linarith

end Premise.Security
