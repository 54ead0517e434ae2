import Premise.Js.Date
import Premise.RuntimeCore.NegativeCaches
import Premise.ValidationScope.Proofs.FrontierProofs

/-!
# Proofs: fairness between tenants

A write exceeds each cap by at most one entry, so each loop evicts at most one. The first of them evicts the oldest
entry of all tenants, also when the second makes room for the new one.
-/

namespace Premise.RuntimeCore

open Collections Control Js ValidationScope CountedMap

namespace BoundedCache

variable {α : Type} {tenantOf : α → String} {c c' : BoundedCache α} {key tenantId : String} {entry : α}

theorem get?_written (c : BoundedCache α) (key : String) (entry : α) {k : String} (hk : k ≠ key) :
    (c.write tenantOf key entry).held.entries.get? k = c.held.entries.get? k := by
  unfold write add
  rw [OrderedMap.get?_set_of_ne _ _ hk, get?_remove, if_neg hk]

theorem get?_cleared (c : BoundedCache α) (key : String) : (c.held.remove tenantOf key).1.entries.get? key = none := by
  rw [get?_remove, if_pos rfl]

theorem tallied_written (h : c.held.Tallied tenantOf) (key : String) (entry : α) :
    (c.write tenantOf key entry).held.Tallied tenantOf :=
  (h.remove key).add (c.get?_cleared key)

theorem size_erase {m : OrderedMap String α} {k : String} {a : α} (h : m.get? k = some a) : (m.erase k).size + 1 = m.size :=
  (m.entries_perm_erase h).length_eq.symm

theorem entries_written (h : c.held.entries.get? key = none) (entry : α) :
    (c.write tenantOf key entry).held.entries.entries = c.held.entries.entries ++ [(key, entry)] := by
  unfold write add
  rw [remove_of_none h]
  exact OrderedMap.entries_set_of_not_mem _ (c.held.entries.get?_eq_none_iff.mp h)

theorem size_written (c : BoundedCache α) (key : String) (entry : α) : (c.write tenantOf key entry).held.entries.size
      = c.held.entries.size + (if c.held.entries.get? key = none then 1 else 0) := by
  have hset : (c.write tenantOf key entry).held.entries.size = (c.held.remove tenantOf key).1.entries.size + 1 := by
    unfold write add OrderedMap.size
    rw [OrderedMap.entries_set_of_not_mem _ ((OrderedMap.get?_eq_none_iff _).mp (c.get?_cleared key)), List.length_append]
    rfl
  rw [hset]
  cases hget : c.held.entries.get? key with
  | none =>
    rw [remove_of_none hget]
    rfl
  | some old =>
    rw [remove_of_some hget, size_erase hget]
    rfl

theorem count_written (c : BoundedCache α) (key : String) (entry : α) (tenantId : String) :
    (c.write tenantOf key entry).held.count tenantId
      = (c.held.remove tenantOf key).1.count tenantId + (if tenantOf entry = tenantId then 1 else 0) :=
  count_add _ _ _ _

theorem count_remove_le (h : c.held.Tallied tenantOf) (key tenantId : String) :
    (c.held.remove tenantOf key).1.count tenantId ≤ c.held.count tenantId := by
  cases hget : c.held.entries.get? key with
  | none => rw [remove_of_none hget]
  | some old =>
    have hcount := count_remove h hget tenantId
    omega

/-- The entries stay. -/
structure Keeps (c c' : BoundedCache α) : Prop where
  held : c'.held = c.held
  bounds : c'.bounds = c.bounds

/-- One entry is evicted. -/
structure Drops (tenantOf : α → String) (c c' : BoundedCache α) (e : String × α) : Prop where
  stored : c.held.entries.get? e.1 = some e.2
  held : c'.held = (c.held.remove tenantOf e.1).1
  bounds : c'.bounds = c.bounds

theorem Drops.tallied {e : String × α} (h : Drops tenantOf c c' e) (htallied : c.held.Tallied tenantOf) :
    c'.held.Tallied tenantOf := by
  rw [h.held]
  exact htallied.remove e.1

theorem Drops.size {e : String × α} (h : Drops tenantOf c c' e) : c'.held.entries.size + 1 = c.held.entries.size := by
  rw [h.held, remove_of_some h.stored]
  exact size_erase h.stored

theorem Drops.count {e : String × α} (h : Drops tenantOf c c' e) (htallied : c.held.Tallied tenantOf)
    (tenantId : String) :
    c'.held.count tenantId + (if tenantOf e.2 = tenantId then 1 else 0) = c.held.count tenantId := by
  rw [h.held]
  exact count_remove htallied h.stored tenantId

theorem Drops.get? {e : String × α} (h : Drops tenantOf c c' e) (k : String) :
    c'.held.entries.get? k = if k = e.1 then none else c.held.entries.get? k := by
  rw [h.held]
  exact get?_remove c.held e.1 k

theorem enforceTotal_cases (tenantOf : α → String) (hsize : c.held.entries.size ≤ c.bounds.maxEntries + 1) :
    ∃ c', c.enforceTotal tenantOf = some c' ∧ ((c.held.entries.size ≤ c.bounds.maxEntries ∧ Keeps c c') ∨
        c.held.entries.size = c.bounds.maxEntries + 1 ∧
          ∃ e, c.held.entries.entries.head? = some e ∧ Drops tenantOf c c' e) := by
  unfold enforceTotal
  by_cases hover : c.held.entries.size ≤ c.bounds.maxEntries
  · rw [evictWhile_of_not (decide_eq_false (Nat.not_lt.mpr hover))]
    exact ⟨_, rfl, Or.inl ⟨hover, rfl, rfl⟩⟩
  · rw [Nat.not_le] at hover
    have hfull : c.held.entries.size = c.bounds.maxEntries + 1 := by omega
    obtain ⟨e, rest, hentries⟩ := List.exists_cons_of_length_pos
      (show 0 < c.held.entries.entries.length by unfold OrderedMap.size at hover; omega)
    have hstored : c.held.entries.get? e.1 = some e.2 := by
      rw [OrderedMap.get?_eq_some_iff, hentries]
      exact List.mem_cons_self
    have hnext : (c.held.remove tenantOf e.1).1.entries.size ≤ c.bounds.maxEntries := by
      have hless := size_erase hstored
      rw [remove_of_some hstored]
      omega
    rw [evictWhile_once (e := e) (decide_eq_true hover) (by rw [hentries]; rfl) (decide_eq_false (Nat.not_lt.mpr hnext))]
    exact ⟨_, rfl, Or.inr ⟨hfull, e, by rw [hentries]; rfl, hstored, rfl, rfl⟩⟩

theorem enforceOwn_cases (htallied : c.held.Tallied tenantOf)
    (hcount : ∀ cap : ℕ+, c.bounds.maxEntriesPerTenant = some cap → c.held.count tenantId ≤ cap + 1) :
    ∃ c', c.enforceOwn tenantOf tenantId = some c' ∧
      (((∀ cap : ℕ+, c.bounds.maxEntriesPerTenant = some cap → c.held.count tenantId ≤ cap) ∧ Keeps c c') ∨
        (∃ cap : ℕ+, c.bounds.maxEntriesPerTenant = some cap ∧ c.held.count tenantId = cap + 1) ∧
          ∃ e, tenantOf e.2 = tenantId ∧ Drops tenantOf c c' e) := by
  unfold enforceOwn
  cases hcap : c.bounds.maxEntriesPerTenant with
  | none => exact ⟨c, rfl, Or.inl ⟨nofun, rfl, rfl⟩⟩
  | some cap =>
    have hone := hcount cap hcap
    dsimp only
    by_cases hover : c.held.count tenantId ≤ cap
    · rw [evictWhile_of_not (decide_eq_false (Nat.not_lt.mpr hover))]
      refine ⟨_, rfl, Or.inl ⟨?_, rfl, rfl⟩⟩
      rintro cap' ⟨rfl⟩
      exact hover
    · rw [Nat.not_le] at hover
      have hfull : c.held.count tenantId = cap + 1 := by omega
      have hpositive : 0 < c.held.entries.countWhere (fun a => decide (tenantOf a = tenantId)) := by
        rw [← htallied tenantId]
        omega
      cases hfind : c.held.entries.entries.find? (fun e => decide (tenantOf e.2 = tenantId)) with
      | none =>
        obtain ⟨e, hmem, howner⟩ := List.countP_pos_iff.mp hpositive
        exact absurd howner (List.find?_eq_none.mp hfind e hmem)
      | some e =>
        have howner : tenantOf e.2 = tenantId := by simpa using List.find?_some hfind
        have hstored := c.held.entries.get?_eq_some_iff.mpr (List.mem_of_find?_eq_some hfind)
        have hnext : (c.held.remove tenantOf e.1).1.count tenantId ≤ cap := by
          have hless := count_remove htallied hstored tenantId
          rw [if_pos howner] at hless
          omega
        rw [evictWhile_once (decide_eq_true hover) hfind (decide_eq_false (Nat.not_lt.mpr hnext))]
        exact ⟨_, rfl, Or.inr ⟨⟨cap, rfl, hfull⟩, e, howner, hstored, rfl, rfl⟩⟩

/-! ## What a write evicts -/

/-- What the steps of a store find: the counters are right, and each cap is exceeded by one entry at most. -/
structure Written (tenantOf : α → String) (c : BoundedCache α) (key : String) (entry : α) : Prop where
  tallied : (c.write tenantOf key entry).held.Tallied tenantOf
  total : (c.write tenantOf key entry).held.entries.size ≤ c.bounds.maxEntries + 1
  own : ∀ cap : ℕ+, c.bounds.maxEntriesPerTenant = some cap →
    (c.write tenantOf key entry).held.count (tenantOf entry) ≤ cap + 1
  others : ∀ cap : ℕ+, c.bounds.maxEntriesPerTenant = some cap → ∀ tenantId, tenantOf entry ≠ tenantId →
    (c.write tenantOf key entry).held.count tenantId ≤ cap

theorem Within.written (h : Within tenantOf c) (key : String) (entry : α) : Written tenantOf c key entry where
  tallied := tallied_written h.tallied key entry
  total := by
    have htotal := h.total
    rw [size_written]
    split_ifs <;> omega
  own := by
    intro cap hcap
    have hown := h.own cap hcap (tenantOf entry)
    have hless := count_remove_le h.tallied key (tenantOf entry)
    rw [count_written, if_pos rfl]
    omega
  others := by
    intro cap hcap tenantId hother
    rw [count_written, if_neg hother]
    exact (count_remove_le h.tallied key tenantId).trans (h.own cap hcap tenantId)

/-- The steps of a store. -/
structure Stores (tenantOf : α → String) (c : BoundedCache α) (key : String) (entry : α) (c₁ c₂ : BoundedCache α) :
    Prop where
  total : ((c.write tenantOf key entry).held.entries.size ≤ c.bounds.maxEntries ∧
      Keeps (c.write tenantOf key entry) c₁) ∨
    (c.write tenantOf key entry).held.entries.size = c.bounds.maxEntries + 1 ∧
      ∃ e, (c.write tenantOf key entry).held.entries.entries.head? = some e ∧
        Drops tenantOf (c.write tenantOf key entry) c₁ e
  own : ((∀ cap : ℕ+, c.bounds.maxEntriesPerTenant = some cap → c₁.held.count (tenantOf entry) ≤ cap) ∧
      Keeps c₁ c₂) ∨
    (∃ cap : ℕ+, c.bounds.maxEntriesPerTenant = some cap ∧ c₁.held.count (tenantOf entry) = cap + 1) ∧
      ∃ e, tenantOf e.2 = tenantOf entry ∧ Drops tenantOf c₁ c₂ e

theorem after_total {c₁ : BoundedCache α} (h : Written tenantOf c key entry)
    (htotal : ((c.write tenantOf key entry).held.entries.size ≤ c.bounds.maxEntries ∧
        Keeps (c.write tenantOf key entry) c₁) ∨
      (c.write tenantOf key entry).held.entries.size = c.bounds.maxEntries + 1 ∧
        ∃ e, (c.write tenantOf key entry).held.entries.entries.head? = some e ∧
          Drops tenantOf (c.write tenantOf key entry) c₁ e) :
    c₁.bounds = c.bounds ∧ c₁.held.Tallied tenantOf ∧ c₁.held.entries.size ≤ c.bounds.maxEntries ∧
      ∀ tenantId, c₁.held.count tenantId ≤ (c.write tenantOf key entry).held.count tenantId := by
  rcases htotal with ⟨hsize, hkeeps⟩ | ⟨hfull, e, -, hdrops⟩
  · refine ⟨hkeeps.bounds, ?_, ?_, ?_⟩
    · rw [hkeeps.held]
      exact h.tallied
    · rw [hkeeps.held]
      exact hsize
    · intro tenantId
      rw [hkeeps.held]
  · refine ⟨hdrops.bounds, hdrops.tallied h.tallied, ?_, ?_⟩
    · have hless := hdrops.size
      omega
    · intro tenantId
      have hless := hdrops.count h.tallied tenantId
      omega

theorem exists_stores (h : Written tenantOf c key entry) :
    ∃ c₁ c₂, c.store tenantOf key entry = some c₂ ∧ Stores tenantOf c key entry c₁ c₂ := by
  obtain ⟨c₁, hcall1, htotal⟩ := @enforceTotal_cases _ (c.write tenantOf key entry) tenantOf h.total
  obtain ⟨hbounds, htallied, -, hcounts⟩ := after_total h htotal
  obtain ⟨c₂, hcall2, hown⟩ := @enforceOwn_cases _ tenantOf c₁ (tenantOf entry) htallied (fun cap hcap =>
    (hcounts _).trans (h.own cap (hbounds ▸ hcap)))
  rw [hbounds] at hown
  refine ⟨c₁, c₂, ?_, htotal, hown⟩
  unfold store enforceBounds
  rw [hcall1]
  exact hcall2

theorem Stores.within {c₁ c₂ : BoundedCache α} (h : Written tenantOf c key entry)
    (hstores : Stores tenantOf c key entry c₁ c₂) : Within tenantOf c₂ := by
  obtain ⟨hbounds, htallied, hsize, hcounts⟩ := after_total h hstores.total
  have hothers : ∀ cap : ℕ+, c.bounds.maxEntriesPerTenant = some cap → ∀ tenantId, tenantOf entry ≠ tenantId →
      c₁.held.count tenantId ≤ cap :=
    fun cap hcap tenantId hother => (hcounts tenantId).trans (h.others cap hcap tenantId hother)
  rcases hstores.own with ⟨hcap, hkeeps⟩ | ⟨⟨cap, hcap, hfull⟩, e, howner, hdrops⟩
  · refine ⟨?_, ?_, ?_⟩
    · rw [hkeeps.held]
      exact htallied
    · intro cap hbound tenantId
      rw [hkeeps.bounds, hbounds] at hbound
      rw [hkeeps.held]
      by_cases hother : tenantOf entry = tenantId
      · subst hother
        exact hcap cap hbound
      · exact hothers cap hbound tenantId hother
    · rw [hkeeps.held, hkeeps.bounds, hbounds]
      exact hsize
  · refine ⟨hdrops.tallied htallied, ?_, ?_⟩
    · intro cap' hbound tenantId
      rw [hdrops.bounds, hbounds] at hbound
      obtain rfl := Option.some.inj (hbound.symm.trans hcap)
      have hless := hdrops.count htallied tenantId
      by_cases hother : tenantOf entry = tenantId
      · subst hother
        rw [if_pos howner] at hless
        omega
      · have hcount := hothers cap' hcap tenantId hother
        omega
    · have hless := hdrops.size
      rw [hdrops.bounds, hbounds]
      omega

theorem Stores.evictsOther_iff {c₁ c₂ : BoundedCache α} (h : Within tenantOf c)
    (hstores : Stores tenantOf c key entry c₁ c₂) :
    EvictsOther tenantOf c c₂ key (tenantOf entry) ↔
      c.held.entries.get? key = none ∧ c.held.entries.size = c.bounds.maxEntries ∧
        ∃ e, c.held.entries.entries.head? = some e ∧ tenantOf e.2 ≠ tenantOf entry := by
  have hsize := @size_written _ tenantOf c key entry
  have htotal := h.total
  have hpositive := c.bounds.maxEntries.pos
  -- The second loop leaves the entries of other tenants.
  have hother : ∀ k entry', c₁.held.entries.get? k = some entry' → tenantOf entry' ≠ tenantOf entry →
      c₂.held.entries.get? k = some entry' := by
    intro k entry' hget hne
    rcases hstores.own with ⟨-, hkeeps⟩ | ⟨-, e, howner, hdrops⟩
    · rw [hkeeps.held]
      exact hget
    · rw [hdrops.get?, if_neg, hget]
      rintro rfl
      rw [hdrops.stored] at hget
      exact hne (Option.some.inj hget ▸ howner)
  have hgone : ∀ k, c₁.held.entries.get? k = none → c₂.held.entries.get? k = none := by
    intro k hnone
    rcases hstores.own with ⟨-, hkeeps⟩ | ⟨-, e, -, hdrops⟩
    · rw [hkeeps.held]
      exact hnone
    · rw [hdrops.get?, hnone, ite_self]
  constructor
  · rintro ⟨k, entry', hk, hget, hne, hnone⟩
    have hwritten := (@get?_written _ tenantOf c key entry _ hk).trans hget
    rcases hstores.total with ⟨-, hkeeps⟩ | ⟨hfull, e, hhead, hdrops⟩
    · rw [hother k entry' (by rw [hkeeps.held]; exact hwritten) hne] at hnone
      cases hnone
    · have hnew : c.held.entries.get? key = none := by
        by_contra hold
        rw [if_neg hold] at hsize
        omega
      rw [if_pos hnew] at hsize
      by_cases hke : k = e.1
      · rw [entries_written hnew, List.head?_append_of_ne_nil _ (by
          intro hnil
          unfold OrderedMap.size at hsize hfull
          rw [hnil] at hsize
          rw [List.length_nil] at hsize
          omega)] at hhead
        have hsame := hdrops.stored
        rw [← hke, hwritten] at hsame
        exact ⟨hnew, by omega, e, hhead, by rw [← Option.some.inj hsame]; exact hne⟩
      · rw [hother k entry' (by rw [hdrops.get?, if_neg hke]; exact hwritten) hne] at hnone
        cases hnone
  · rintro ⟨hnew, hreached, e, hhead, hne⟩
    rw [if_pos hnew] at hsize
    have hstored : c.held.entries.get? e.1 = some e.2 :=
      c.held.entries.get?_eq_some_iff.mpr (List.mem_of_head? hhead)
    have hkey : e.1 ≠ key := by
      intro heq
      rw [heq, hnew] at hstored
      cases hstored
    rcases hstores.total with ⟨hfits, -⟩ | ⟨-, e', hhead', hdrops⟩
    · omega
    · rw [entries_written hnew, List.head?_append, hhead] at hhead'
      cases hhead'
      exact ⟨e.1, e.2, hkey, hstored, hne, hgone _ (by rw [hdrops.get?, if_pos rfl])⟩

theorem exceedsAfterOwn_iff (h : Within tenantOf c) (hnew : c.held.entries.get? key = none)
    (hreached : c.held.entries.size = c.bounds.maxEntries) :
    ExceedsAfterOwn tenantOf c key entry ↔
      ¬ ∃ cap : ℕ+, c.bounds.maxEntriesPerTenant = some cap ∧ c.held.count (tenantOf entry) = cap := by
  have hwritten := h.written key entry
  have hsize := @size_written _ tenantOf c key entry
  rw [if_pos hnew, hreached] at hsize
  have hcount := @count_written _ tenantOf c key entry (tenantOf entry)
  rw [remove_of_none hnew, if_pos rfl] at hcount
  dsimp only at hcount
  obtain ⟨c', hcall, hcase⟩ := @enforceOwn_cases _ tenantOf (c.write tenantOf key entry) (tenantOf entry)
    hwritten.tallied hwritten.own
  unfold ExceedsAfterOwn
  rw [hcall]
  rcases hcase with ⟨hbelow, hkeeps⟩ | ⟨⟨cap, hcap, hfull⟩, e, -, hdrops⟩
  · refine iff_of_true ⟨c', rfl, ?_⟩ ?_
    · rw [hkeeps.held]
      omega
    · rintro ⟨cap, hcap, hequal⟩
      have hless := hbelow cap hcap
      omega
  · refine iff_of_false ?_ (not_not.mpr ⟨cap, hcap, by omega⟩)
    rintro ⟨c'', hsome, hexceeds⟩
    cases hsome
    have hless := hdrops.size
    omega

theorem store_spec (h : Within tenantOf c) (key : String) (entry : α) : ∃ c', c.store tenantOf key entry = some c' ∧
    Within tenantOf c' ∧
    ((EvictsOther tenantOf c c' key (tenantOf entry) → ExceedsAfterOwn tenantOf c key entry) ↔
      ¬ ReachesBothCaps tenantOf c key (tenantOf entry)) := by
  obtain ⟨c₁, c₂, hstore, hstores⟩ := exists_stores (h.written key entry)
  refine ⟨c₂, hstore, hstores.within (h.written key entry), ?_⟩
  rw [hstores.evictsOther_iff h]
  unfold ReachesBothCaps
  constructor
  · rintro himplies ⟨hnew, hreached, hcap, hhead⟩
    exact (exceedsAfterOwn_iff h hnew hreached).mp (himplies ⟨hnew, hreached, hhead⟩) hcap
  · rintro hnot ⟨hnew, hreached, hhead⟩
    exact (exceedsAfterOwn_iff h hnew hreached).mpr fun hcap => hnot ⟨hnew, hreached, hcap, hhead⟩

theorem Within.remove (h : Within tenantOf c) (key : String) : Within tenantOf (c.remove tenantOf key).1 where
  tallied := h.tallied.remove key
  own := fun cap hcap tenantId => (count_remove_le h.tallied key tenantId).trans (h.own cap hcap tenantId)
  total := by
    refine le_trans ?_ h.total
    unfold BoundedCache.remove
    cases hget : c.held.entries.get? key with
    | none => rw [remove_of_none hget]
    | some old =>
      have hless := size_erase hget
      rw [remove_of_some hget]
      omega

theorem within_clear (c : BoundedCache α) : Within tenantOf c.clear where
  tallied := tallied_empty
  own := fun _ _ _ => Nat.zero_le _
  total := Nat.zero_le _

theorem Within.miss (h : Within tenantOf c) : Within tenantOf c.miss := ⟨h.tallied, h.own, h.total⟩

theorem Within.hit (h : Within tenantOf c) : Within tenantOf c.hit := ⟨h.tallied, h.own, h.total⟩

theorem Within.expire (h : Within tenantOf c) (key : String) : Within tenantOf (c.expire tenantOf key) :=
  ⟨(h.remove key).tallied, (h.remove key).own, (h.remove key).total⟩

theorem within_empty (tenantOf : α → String) (bounds : CacheBounds) :
    Within tenantOf ({ bounds := bounds } : BoundedCache α) where
  tallied := tallied_empty
  own := fun _ _ _ => Nat.zero_le _
  total := Nat.zero_le _

end BoundedCache

variable {digest : String → String} {dateParse : String → Option Int}

open BoundedCache

variable {scope : PremiseValidationScope} {key : String} {c : NegativePremiseStore}

namespace RuntimeNegativeCache

theorem within_perform {c : RuntimeNegativeCache} (h : c.Within NegativeEntry.tenantId) (call : Call) :
    ∃ c', perform digest dateParse c call = some c' ∧ c'.Within NegativeEntry.tenantId := by
  cases call with
  | put scope reason expiresAt =>
    unfold perform put
    dsimp only
    split
    · exact ⟨c, rfl, h⟩
    next key _ =>
      obtain ⟨c', hstore, hwithin, -⟩ := store_spec h key ⟨scope.tenantId, reason, expiresAt⟩
      rw [hstore]
      exact ⟨c', rfl, hwithin⟩
  | get scope now =>
    refine ⟨_, rfl, ?_⟩
    unfold get
    split
    · exact h
    · split
      · exact h.miss
      next key _ =>
        split
        · exact h.miss
        · split_ifs
          · exact h.hit
          · exact (h.expire key).miss
  | clear => exact ⟨c.clear, rfl, within_clear c⟩

theorem within_of_reachable {c : RuntimeNegativeCache} (h : (system digest dateParse).Reachable c) :
    c.Within NegativeEntry.tenantId := by
  refine h.invariant (fun c => c.Within NegativeEntry.tenantId) ?_ ?_
  · rintro c ⟨maxEntries, maxEntriesPerTenant, hcreate⟩
    obtain ⟨bounds, -, hok⟩ := of_bind_ok hcreate
    rw [← Except.ok.inj hok]
    exact within_empty _ bounds
  · intro c call c' hwithin hstep
    obtain ⟨c'', hcall, hnext⟩ := @within_perform digest dateParse c hwithin call
    obtain rfl := Option.some.inj (hcall.symm.trans hstep)
    exact hnext

theorem put_store {c c' : RuntimeNegativeCache} {reason expiresAt : String}
    (h : put digest dateParse c scope reason expiresAt = some (c', .ok key)) :
    c.store NegativeEntry.tenantId key ⟨scope.tenantId, reason, expiresAt⟩ = some c' := by
  unfold put at h
  split at h
  · cases (Prod.mk.inj (Option.some.inj h)).2
  · obtain ⟨c'', hstore, hpair⟩ := Option.map_eq_some_iff.mp h
    obtain ⟨rfl, hkey⟩ := Prod.mk.inj hpair
    rw [← Except.ok.inj hkey]
    exact hstore

end RuntimeNegativeCache

namespace NegativePremiseStore

theorem within_removeAll (h : c.Within tenantOf) (keys : List String) : (removeAll c keys).1.Within tenantOf := by
  unfold removeAll
  generalize (0 : Nat) = n
  induction keys generalizing c n with
  | nil => exact h
  | cons key keys ih =>
    rw [List.foldl_cons]
    exact ih (h.remove key) _

theorem within_perform {c : NegativePremiseStore} (h : c.Within tenantOf) (call : Call) :
    ∃ c', perform digest dateParse c call = some c' ∧ c'.Within tenantOf := by
  cases call with
  | putAbsent input =>
    unfold perform putAbsent
    dsimp only
    split
    · exact ⟨c, rfl, h⟩
    next key _ =>
      obtain ⟨c', hstore, hwithin, -⟩ := store_spec h key ⟨input, key⟩
      rw [hstore]
      exact ⟨c', rfl, hwithin⟩
  | check scope now observation =>
    refine ⟨_, rfl, ?_⟩
    unfold check
    split
    · exact h.miss
    · split
      · exact h
      next key _ =>
        split
        · exact h.miss
        · split_ifs
          · exact h.miss
          · exact (h.expire key).miss
          · exact h.hit
  | invalidateOnAppearance tenantId resource incarnationId =>
    refine ⟨_, rfl, ?_⟩
    unfold invalidateOnAppearance
    split
    · exact h
    · exact within_removeAll h _
  | clear => exact ⟨c.clear, rfl, within_clear c⟩

theorem within_of_reachable (h : (system digest dateParse).Reachable c) : c.Within tenantOf := by
  refine h.invariant (fun c => c.Within tenantOf) ?_ ?_
  · rintro c ⟨maxEntries, maxEntriesPerTenant, hcreate⟩
    obtain ⟨bounds, -, hok⟩ := of_bind_ok hcreate
    rw [← Except.ok.inj hok]
    exact within_empty _ bounds
  · intro c call c' hwithin hstep
    obtain ⟨c'', hcall, hnext⟩ := @within_perform digest dateParse c hwithin call
    obtain rfl := Option.some.inj (hcall.symm.trans hstep)
    exact hnext

theorem putAbsent_store {c' : NegativePremiseStore} {input : NegativePremise}
    (h : putAbsent digest dateParse c input = some (c', .ok key)) :
    c.store tenantOf key ⟨input, key⟩ = some c' := by
  unfold putAbsent at h
  split at h
  · cases (Prod.mk.inj (Option.some.inj h)).2
  next key' _ =>
    obtain ⟨c'', hstore, hpair⟩ := Option.map_eq_some_iff.mp h
    obtain ⟨rfl, hkey⟩ := Prod.mk.inj hpair
    rw [← Except.ok.inj hkey]
    exact hstore

end NegativePremiseStore

/-- In every run of either cache the counters are right and no cap is exceeded, and a put spares other tenants'
    entries unless it reaches both caps while the oldest entry is another tenant's. -/
theorem negative_caches_fair (digest : String → String) (dateParse : String → Option Int) :
    TenantFair NegativeEntry.tenantId (RuntimeNegativeCache.system digest dateParse)
        (RuntimeNegativeCache.Puts digest dateParse) ∧
      TenantFair NegativePremiseStore.tenantOf (NegativePremiseStore.system digest dateParse)
        (NegativePremiseStore.Puts digest dateParse) := by
  refine ⟨⟨?_, ?_, ?_⟩, ⟨?_, ?_, ?_⟩⟩
  · intro c call hreach
    obtain ⟨c', hcall, -⟩ := RuntimeNegativeCache.within_perform (RuntimeNegativeCache.within_of_reachable hreach) call
    exact ⟨c', hcall⟩
  · exact fun c => RuntimeNegativeCache.within_of_reachable
  · rintro c key entry c' hreach ⟨scope, reason, expiresAt, rfl, hput⟩
    obtain ⟨c'', hstore, -, hspares⟩ := store_spec (RuntimeNegativeCache.within_of_reachable hreach) key
      ⟨scope.tenantId, reason, expiresAt⟩
    obtain rfl := Option.some.inj (hstore.symm.trans (RuntimeNegativeCache.put_store hput))
    exact hspares
  · intro c call hreach
    obtain ⟨c', hcall, -⟩ := NegativePremiseStore.within_perform (NegativePremiseStore.within_of_reachable hreach) call
    exact ⟨c', hcall⟩
  · exact fun c => NegativePremiseStore.within_of_reachable
  · rintro c key entry c' hreach ⟨input, rfl, hput⟩
    obtain ⟨c'', hstore, -, hspares⟩ := store_spec (NegativePremiseStore.within_of_reachable hreach) key ⟨input, key⟩
    obtain rfl := Option.some.inj (hstore.symm.trans (NegativePremiseStore.putAbsent_store hput))
    exact hspares

namespace RuntimeNegativeCache

def scopeFor (tenantId resourceId : String) : PremiseValidationScope :=
  { scopeOf resourceId with tenantId := tenantId }

def cacheDigest : String → String :=
  lookupDigest
    [(String.ofList (scopeText (scopeFor "u" "1")), "8d3e29e785364657b72f5bfaa638499761f2d06775a8562267ab8a770098126d"),
      (String.ofList (scopeText (scopeFor "t" "1")), "deb7227bfb66da344c31e23319407e8664c5b7a47db098e21e273d46b77c3d85"),
      (String.ofList (scopeText (scopeFor "t" "2")), "d789c94f89a090bfe00bfe970088a3ce020cfdda38dda51afa9540110c97f366")]

theorem text_ne {scope' : PremiseValidationScope} (h : scope ≠ scope') :
    String.ofList (scopeText scope) ≠ String.ofList (scopeText scope') :=
  fun htext => h (scopeText_injective (String.ofList_injective htext))

theorem checks_sample : normalizePremiseValidationScope (scopeFor "u" "1") = .ok (scopeFor "u" "1") ∧
    normalizePremiseValidationScope (scopeFor "t" "1") = .ok (scopeFor "t" "1") ∧
    normalizePremiseValidationScope (scopeFor "t" "2") = .ok (scopeFor "t" "2") ∧
    checkTimestamp Premise.Js.dateParse "2026-08-13T00:10:00Z" "expiresAt" = .ok () := by
  decide +kernel

theorem key_u : premiseValidationScopeKey cacheDigest (scopeFor "u" "1")
    = .ok "sha256:8d3e29e785364657b72f5bfaa638499761f2d06775a8562267ab8a770098126d" := by
  rw [scopeKey_eq checks_sample.1]
  unfold digestKey cacheDigest
  rw [lookupDigest_cons_self]
  rfl

theorem key_t : premiseValidationScopeKey cacheDigest (scopeFor "t" "1")
    = .ok "sha256:deb7227bfb66da344c31e23319407e8664c5b7a47db098e21e273d46b77c3d85" := by
  rw [scopeKey_eq checks_sample.2.1]
  unfold digestKey cacheDigest
  rw [lookupDigest_cons_of_ne (text_ne (by decide)), lookupDigest_cons_self]
  rfl

theorem key_t2 : premiseValidationScopeKey cacheDigest (scopeFor "t" "2")
    = .ok "sha256:d789c94f89a090bfe00bfe970088a3ce020cfdda38dda51afa9540110c97f366" := by
  rw [scopeKey_eq checks_sample.2.2.1]
  unfold digestKey cacheDigest
  rw [lookupDigest_cons_of_ne (text_ne (by decide)), lookupDigest_cons_of_ne (text_ne (by decide)), lookupDigest_cons_self]
  rfl

theorem put_of_key (c : RuntimeNegativeCache) (hkey : premiseValidationScopeKey cacheDigest scope = .ok key) :
    put cacheDigest Premise.Js.dateParse c scope "EVENT_GAP" "2026-08-13T00:10:00Z"
      = (c.store NegativeEntry.tenantId key ⟨scope.tenantId, "EVENT_GAP", "2026-08-13T00:10:00Z"⟩).map
        (fun c => (c, .ok key)) := by
  have hreason : ("EVENT_GAP" : String) ≠ "" := by decide
  unfold put putKey
  rw [if_neg hreason, checks_sample.2.2.2, hkey]
  rfl

theorem perform_of_key (c : RuntimeNegativeCache) (hkey : premiseValidationScopeKey cacheDigest scope = .ok key) :
    perform cacheDigest Premise.Js.dateParse c (.put scope "EVENT_GAP" "2026-08-13T00:10:00Z")
      = c.store NegativeEntry.tenantId key ⟨scope.tenantId, "EVENT_GAP", "2026-08-13T00:10:00Z"⟩ := by
  unfold perform
  dsimp only
  rw [put_of_key c hkey, Option.map_map]
  exact Option.map_id'

/-- The cache for two entries, one of every tenant, after a put of each of two tenants. -/
def twoTenants : RuntimeNegativeCache where
  bounds := ⟨2, some 1⟩
  held :=
    { entries := OrderedMap.ofList
        [("sha256:8d3e29e785364657b72f5bfaa638499761f2d06775a8562267ab8a770098126d",
            ⟨"u", "EVENT_GAP", "2026-08-13T00:10:00Z"⟩),
          ("sha256:deb7227bfb66da344c31e23319407e8664c5b7a47db098e21e273d46b77c3d85",
            ⟨"t", "EVENT_GAP", "2026-08-13T00:10:00Z"⟩)]
      counts := OrderedMap.ofList [("u", 1), ("t", 1)] }
  stats := { peakEntries := 2 }

theorem twoTenants_reachable : (system cacheDigest Premise.Js.dateParse).Reachable twoTenants := by
  let first : RuntimeNegativeCache :=
    { bounds := ⟨2, some 1⟩
      held :=
        { entries := OrderedMap.ofList [("sha256:8d3e29e785364657b72f5bfaa638499761f2d06775a8562267ab8a770098126d",
            ⟨"u", "EVENT_GAP", "2026-08-13T00:10:00Z"⟩)]
          counts := OrderedMap.ofList [("u", 1)] }
      stats := { peakEntries := 1 } }
  refine System.Reachable.step (s := first) (System.Reachable.step (s := { bounds := ⟨2, some 1⟩ })
    (System.Reachable.init ⟨some 2, some 1, by decide +kernel⟩)
    (i := .put (scopeFor "u" "1") "EVENT_GAP" "2026-08-13T00:10:00Z") ?_)
    (i := .put (scopeFor "t" "1") "EVENT_GAP" "2026-08-13T00:10:00Z") ?_
  · exact (perform_of_key _ key_u).trans (by decide +kernel)
  · exact (perform_of_key _ key_t).trans (by decide +kernel)

end RuntimeNegativeCache

open RuntimeNegativeCache in
/-- A put of a tenant that is at its own cap evicts another tenant's entry, and then its own oldest one. -/
theorem put_evicts_other_tenant : ∃ c key entry c',
    (RuntimeNegativeCache.system cacheDigest Premise.Js.dateParse).Reachable c ∧
      RuntimeNegativeCache.Puts cacheDigest Premise.Js.dateParse c key entry c' ∧
      c.EvictsOther NegativeEntry.tenantId c' key entry.tenantId ∧
      ¬ c.ExceedsAfterOwn NegativeEntry.tenantId key entry := by
  obtain ⟨c', hstore, -, hspares⟩ := store_spec (within_of_reachable twoTenants_reachable)
    "sha256:d789c94f89a090bfe00bfe970088a3ce020cfdda38dda51afa9540110c97f366"
    ⟨"t", "EVENT_GAP", "2026-08-13T00:10:00Z"⟩
  have hreaches : twoTenants.ReachesBothCaps NegativeEntry.tenantId
      "sha256:d789c94f89a090bfe00bfe970088a3ce020cfdda38dda51afa9540110c97f366" "t" :=
    ⟨by decide +kernel, by decide +kernel, ⟨1, rfl, by decide +kernel⟩, _, rfl, by decide⟩
  have hnot := mt hspares.mp (not_not.mpr hreaches)
  rw [Classical.not_imp] at hnot
  refine ⟨twoTenants, _, _, c', twoTenants_reachable,
    ⟨scopeFor "t" "2", "EVENT_GAP", "2026-08-13T00:10:00Z", rfl, ?_⟩, hnot⟩
  rw [put_of_key _ key_t2]
  exact congrArg (Option.map (fun c => (c, Except.ok _))) hstore

end Premise.RuntimeCore
