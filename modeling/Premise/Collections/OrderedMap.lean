import Mathlib

/-!
# Insertion-ordered maps and sets

Finite maps and sets that enumerate their keys in the order in which the keys were first inserted.
Setting a key that is present keeps its place; a key that is deleted and set again goes to the end.
The list of keys is duplicate-free by construction.
-/

namespace Premise.Collections

universe u v

/-- A finite map that remembers the order in which its keys were first set. -/
structure OrderedMap (κ : Type u) (α : Type v) where
  /-- The entries, in insertion order. -/
  entries : List (κ × α)
  /-- No key occurs twice. -/
  nodup_keys : (entries.map Prod.fst).Nodup
deriving DecidableEq

namespace OrderedMap

variable {κ : Type u} {α : Type v}

def empty : OrderedMap κ α := ⟨[], by simp⟩

instance : EmptyCollection (OrderedMap κ α) := ⟨empty⟩

instance : Inhabited (OrderedMap κ α) := ⟨empty⟩

def keys (m : OrderedMap κ α) : List κ := m.entries.map Prod.fst

def size (m : OrderedMap κ α) : Nat := m.entries.length

def values (m : OrderedMap κ α) : List α := m.entries.map Prod.snd

variable (m : OrderedMap κ α)

theorem keys_nodup : m.keys.Nodup := m.nodup_keys

@[simp] theorem keys_empty : (∅ : OrderedMap κ α).keys = [] := rfl

@[simp] theorem size_empty : (∅ : OrderedMap κ α).size = 0 := rfl

@[simp] theorem entries_empty : (∅ : OrderedMap κ α).entries = [] := rfl

@[simp] theorem length_keys : m.keys.length = m.size := by
  simp [keys, size]

variable [DecidableEq κ]

/-- The value stored under `k`. -/
def get? (m : OrderedMap κ α) (k : κ) : Option α :=
  (m.entries.find? (fun p => p.1 = k)).map Prod.snd

/-- Whether `k` has a value. -/
def has (m : OrderedMap κ α) (k : κ) : Bool := (m.get? k).isSome

/-- Replace the value under `k`, or append a new entry. -/
def set (m : OrderedMap κ α) (k : κ) (a : α) : OrderedMap κ α :=
  if h : k ∈ m.keys then
    ⟨m.entries.map (fun p => if p.1 = k then (k, a) else p), by
      have hk : (m.entries.map (fun p => if p.1 = k then (k, a) else p)).map Prod.fst
          = m.entries.map Prod.fst := by
        rw [List.map_map]
        refine List.map_congr_left (fun p _ => ?_)
        by_cases hp : p.1 = k
        · simp [hp]
        · simp [hp]
      rw [hk]
      exact m.nodup_keys⟩
  else
    ⟨m.entries ++ [(k, a)], by
      rw [List.map_append, List.nodup_append]
      refine ⟨m.nodup_keys, by simp, ?_⟩
      intro x hx y hy hxy
      simp only [List.map_cons, List.map_nil, List.mem_singleton] at hy
      exact h (by rw [← hy, ← hxy]; exact hx)⟩

/-- Remove the entry of `k`. -/
def erase (m : OrderedMap κ α) (k : κ) : OrderedMap κ α :=
  ⟨m.entries.filter (fun p => p.1 ≠ k),
    m.nodup_keys.sublist (List.filter_sublist.map Prod.fst)⟩

/-- The map that results from setting the listed entries one after the other. -/
def ofList (l : List (κ × α)) : OrderedMap κ α :=
  l.foldl (fun m p => m.set p.1 p.2) ∅

def mapValues {β : Type v} (f : α → β) (m : OrderedMap κ α) : OrderedMap κ β :=
  ⟨m.entries.map (fun p => (p.1, f p.2)), by
    rw [List.map_map]
    exact m.nodup_keys⟩

/-! ## Lookup -/

@[simp] theorem get?_empty (k : κ) : (∅ : OrderedMap κ α).get? k = none := rfl

theorem find?_of_mem {l : List (κ × α)} (hl : (l.map Prod.fst).Nodup) {k : κ} {a : α}
    (h : (k, a) ∈ l) : l.find? (fun p => p.1 = k) = some (k, a) := by
  induction l with
  | nil => cases h
  | cons p l ih =>
    rw [List.map_cons, List.nodup_cons] at hl
    rcases List.mem_cons.mp h with rfl | h
    · simp
    · have hne : p.1 ≠ k := by
        rintro rfl
        exact hl.1 (List.mem_map.mpr ⟨_, h, rfl⟩)
      rw [List.find?_cons_of_neg (by simpa using hne)]
      exact ih hl.2 h

theorem get?_eq_some_iff {k : κ} {a : α} : m.get? k = some a ↔ (k, a) ∈ m.entries := by
  constructor
  · intro h
    obtain ⟨⟨k', a'⟩, hf, rfl⟩ := Option.map_eq_some_iff.mp h
    have hk : k' = k := by simpa using List.find?_some hf
    subst hk
    exact List.mem_of_find?_eq_some hf
  · intro h
    simp [get?, find?_of_mem m.nodup_keys h]

theorem mem_keys {k : κ} : k ∈ m.keys ↔ ∃ a, m.get? k = some a := by
  constructor
  · intro h
    obtain ⟨⟨k', a⟩, hp, rfl⟩ := List.mem_map.mp h
    exact ⟨a, m.get?_eq_some_iff.mpr hp⟩
  · rintro ⟨a, h⟩
    exact List.mem_map.mpr ⟨(k, a), m.get?_eq_some_iff.mp h, rfl⟩

theorem get?_eq_none_iff {k : κ} : m.get? k = none ↔ k ∉ m.keys := by
  rw [mem_keys]
  cases h : m.get? k <;> simp

@[simp] theorem has_eq_true {k : κ} : m.has k = true ↔ k ∈ m.keys := by
  rw [mem_keys, has, Option.isSome_iff_exists]

theorem has_eq_false {k : κ} : m.has k = false ↔ k ∉ m.keys := by
  rw [← m.has_eq_true, Bool.not_eq_true]

theorem mem_keys_of_get? {k : κ} {a : α} (h : m.get? k = some a) : k ∈ m.keys := m.mem_keys.mpr ⟨a, h⟩

theorem mem_values {a : α} : a ∈ m.values ↔ ∃ k, m.get? k = some a := by
  constructor
  · intro h
    obtain ⟨⟨k, a'⟩, hp, rfl⟩ := List.mem_map.mp h
    exact ⟨k, m.get?_eq_some_iff.mpr hp⟩
  · rintro ⟨k, h⟩
    exact List.mem_map.mpr ⟨(k, a), m.get?_eq_some_iff.mp h, rfl⟩

theorem entries_set_of_mem {k : κ} {a : α} (h : k ∈ m.keys) :
    (m.set k a).entries = m.entries.map (fun p => if p.1 = k then (k, a) else p) := by
  rw [set, dif_pos h]

theorem entries_set_of_not_mem {k : κ} {a : α} (h : k ∉ m.keys) : (m.set k a).entries = m.entries ++ [(k, a)] := by
  rw [set, dif_neg h]

theorem mem_entries_set {k k' : κ} {a b : α} :
    (k', b) ∈ (m.set k a).entries ↔ (k' = k ∧ b = a) ∨ (k' ≠ k ∧ (k', b) ∈ m.entries) := by
  by_cases h : k ∈ m.keys
  · rw [entries_set_of_mem m h, List.mem_map]
    constructor
    · rintro ⟨p, hp, he⟩
      by_cases hpk : p.1 = k
      · rw [if_pos hpk] at he
        cases he
        exact .inl ⟨rfl, rfl⟩
      · rw [if_neg hpk] at he
        subst he
        exact .inr ⟨hpk, hp⟩
    · rintro (⟨rfl, rfl⟩ | ⟨hne, hb⟩)
      · obtain ⟨p, hp, hpk⟩ := List.mem_map.mp h
        exact ⟨p, hp, by rw [if_pos hpk]⟩
      · exact ⟨(k', b), hb, by rw [if_neg hne]⟩
  · rw [entries_set_of_not_mem m h, List.mem_append, List.mem_singleton, Prod.mk.injEq]
    constructor
    · rintro (hb | hb)
      · refine .inr ⟨?_, hb⟩
        rintro rfl
        exact h (List.mem_map.mpr ⟨_, hb, rfl⟩)
      · exact .inl hb
    · rintro (hb | ⟨-, hb⟩)
      · exact .inr hb
      · exact .inl hb

theorem mem_of_mem_ofList {l : List (κ × α)} {p : κ × α} (h : p ∈ (ofList l).entries) : p ∈ l := by
  have hfold : ∀ (l : List (κ × α)) (m : OrderedMap κ α),
      p ∈ (l.foldl (fun m p => m.set p.1 p.2) m).entries → p ∈ m.entries ∨ p ∈ l := by
    intro l
    induction l with
    | nil => exact fun m hm => Or.inl hm
    | cons q l ih =>
      intro m hm
      rcases ih _ hm with hset | hl
      · rcases (mem_entries_set m).mp hset with ⟨hk, ha⟩ | ⟨-, hold⟩
        · exact .inr (List.mem_cons.mpr (Or.inl (Prod.ext hk ha)))
        · exact .inl hold
      · exact .inr (List.mem_cons_of_mem _ hl)
  rcases hfold l ∅ h with hempty | hl
  · cases hempty
  · exact hl

theorem get?_set (k k' : κ) (a : α) :
    (m.set k a).get? k' = if k' = k then some a else m.get? k' := by
  apply Option.ext
  intro b
  rw [get?_eq_some_iff, mem_entries_set]
  by_cases hk : k' = k
  · simp [hk, eq_comm]
  · simp [hk, get?_eq_some_iff]

@[simp] theorem get?_set_self (k : κ) (a : α) :
    (m.set k a).get? k = some a := by simp [get?_set]

theorem get?_set_of_ne {k k' : κ} (a : α) (h : k' ≠ k) : (m.set k a).get? k' = m.get? k' := by simp [get?_set, h]

theorem set_eq_self {k : κ} {a : α} (h : m.get? k = some a) : m.set k a = m := by
  have hentries : (m.set k a).entries = m.entries := by
    rw [entries_set_of_mem m (mem_keys_of_get? m h)]
    refine (List.map_congr_left fun p hp => ?_).trans (List.map_id _)
    show (if p.1 = k then (k, a) else p) = p
    split_ifs with hk
    · have hget : m.get? p.1 = some p.2 := m.get?_eq_some_iff.mpr hp
      rw [hk, h] at hget
      rw [Option.some.inj hget, ← hk]
    · rfl
  revert hentries
  generalize m.set k a = m'
  cases m
  cases m'
  rintro rfl
  rfl

theorem mem_values_set {k : κ} {a b : α} (h : b ∈ (m.set k a).values) : b = a ∨ b ∈ m.values := by
  obtain ⟨k', hk'⟩ := (mem_values _).mp h
  rw [get?_set] at hk'
  split_ifs at hk'
  · exact .inl (Option.some.inj hk').symm
  · exact .inr ((mem_values m).mpr ⟨k', hk'⟩)

theorem get?_erase (k k' : κ) :
    (m.erase k).get? k' = if k' = k then none else m.get? k' := by
  have hmem : ∀ a, (k', a) ∈ (m.erase k).entries ↔ k' ≠ k ∧ (k', a) ∈ m.entries := by
    intro a
    simp [erase, and_comm]
  by_cases hk : k' = k
  · rw [if_pos hk]
    cases h : (m.erase k).get? k' with
    | none => rfl
    | some a => exact absurd hk ((hmem a).mp ((get?_eq_some_iff _).mp h)).1
  · rw [if_neg hk]
    apply Option.ext
    intro a
    rw [get?_eq_some_iff, get?_eq_some_iff, hmem]
    simp [hk]

@[simp] theorem get?_erase_self (k : κ) : (m.erase k).get? k = none := by
  simp [get?_erase]

theorem get?_erase_of_ne {k k' : κ} (h : k' ≠ k) : (m.erase k).get? k' = m.get? k' := by simp [get?_erase, h]

theorem get?_foldl_erase {β : Type*} (f : β → κ) (l : List β) (m : OrderedMap κ α) (k : κ) :
    (l.foldl (fun m b => m.erase (f b)) m).get? k = if k ∈ l.map f then none else m.get? k := by
  induction l generalizing m with
  | nil => simp
  | cons b l ih =>
    rw [List.foldl_cons, ih, get?_erase, List.map_cons]
    by_cases hb : k = f b
    · simp [hb]
    · simp [hb]

theorem get?_foldl_erase_filter (p : κ × α → Bool) (m : OrderedMap κ α) (k : κ) :
    ((m.entries.filter p).foldl (fun m entry => m.erase entry.1) m).get? k =
      (m.get? k).filter (fun a => !p (k, a)) := by
  rw [get?_foldl_erase (fun entry : κ × α => entry.1)]
  cases hget : m.get? k with
  | none => simp
  | some a =>
    have hmem : k ∈ (m.entries.filter p).map (fun entry => entry.1) ↔ p (k, a) = true := by
      rw [List.mem_map]
      constructor
      · rintro ⟨⟨k', b⟩, hentry, rfl⟩
        rw [List.mem_filter, ← get?_eq_some_iff, hget] at hentry
        obtain rfl := Option.some.inj hentry.1
        exact hentry.2
      · intro hp
        exact ⟨(k, a), List.mem_filter.mpr ⟨(get?_eq_some_iff m).mp hget, hp⟩, rfl⟩
    rw [Option.filter_some]
    cases hp : p (k, a) with
    | true => rw [if_pos (hmem.mpr hp)]; rfl
    | false => rw [if_neg (mt hmem.mp (by simp [hp]))]; rfl

theorem mem_keys_set {k k' : κ} {a : α} : k' ∈ (m.set k a).keys ↔ k' = k ∨ k' ∈ m.keys := by
  rw [mem_keys, mem_keys]
  by_cases h : k' = k
  · simp [h]
  · simp [get?_set, h]

theorem mem_keys_ofList {l : List (κ × α)} {k : κ} : k ∈ (ofList l).keys ↔ ∃ p ∈ l, p.1 = k := by
  have hfold : ∀ (l : List (κ × α)) (m : OrderedMap κ α),
      k ∈ (l.foldl (fun m p => m.set p.1 p.2) m).keys ↔ k ∈ m.keys ∨ ∃ p ∈ l, p.1 = k := by
    intro l
    induction l with
    | nil => simp
    | cons q l ih =>
      intro m
      rw [List.foldl_cons, ih, mem_keys_set, List.exists_mem_cons_iff, or_assoc, or_left_comm, eq_comm]
  simpa [ofList] using hfold l ∅

theorem mem_keys_erase {k k' : κ} : k' ∈ (m.erase k).keys ↔ k' ≠ k ∧ k' ∈ m.keys := by
  rw [mem_keys, mem_keys]
  by_cases h : k' = k
  · simp [h]
  · simp [get?_erase, h]

theorem keys_set_of_mem {k : κ} {a : α} (h : k ∈ m.keys) : (m.set k a).keys = m.keys := by
  rw [keys, entries_set_of_mem m h, List.map_map]
  refine List.map_congr_left fun p _ => ?_
  by_cases hp : p.1 = k
  · simp [hp]
  · simp [hp]

theorem keys_set_of_not_mem {k : κ} {a : α} (h : k ∉ m.keys) : (m.set k a).keys = m.keys ++ [k] := by
  rw [keys, entries_set_of_not_mem m h, List.map_append]
  rfl

theorem size_eq_zero : m.size = 0 ↔ ∀ k, m.get? k = none := by
  constructor
  · intro h k
    rw [get?_eq_none_iff]
    have : m.keys = [] := List.length_eq_zero_iff.mp (by rw [length_keys]; exact h)
    simp [this]
  · intro h
    rw [← length_keys, List.length_eq_zero_iff, List.eq_nil_iff_forall_not_mem]
    intro k hk
    exact m.get?_eq_none_iff.mp (h k) hk

omit [DecidableEq κ] in
@[simp] theorem keys_mapValues {β : Type v} (f : α → β) (m : OrderedMap κ α) :
    (m.mapValues f).keys = m.keys := by
  simp [mapValues, keys]

@[simp] theorem get?_mapValues {β : Type v} (f : α → β) (m : OrderedMap κ α) (k : κ) :
    (m.mapValues f).get? k = (m.get? k).map f := by
  have h : ∀ l : List (κ × α), ((l.map (fun p => (p.1, f p.2))).find? (fun p => p.1 = k)).map Prod.snd
      = ((l.find? (fun p => p.1 = k)).map Prod.snd).map f := by
    intro l
    induction l with
    | nil => rfl
    | cons p l ih =>
      by_cases hp : p.1 = k
      · simp [hp]
      · simp [hp] at ih ⊢
        exact ih
  exact h m.entries

theorem mapValues_set {β : Type v} (f : α → β) (m : OrderedMap κ α) (k : κ) (a : α) :
    (m.set k a).mapValues f = (m.mapValues f).set k (f a) := by
  have hentries : ((m.set k a).mapValues f).entries = ((m.mapValues f).set k (f a)).entries := by
    by_cases hk : k ∈ m.keys
    · rw [entries_set_of_mem _ (by rwa [keys_mapValues])]
      show ((m.set k a).entries.map _) = (m.entries.map _).map _
      rw [entries_set_of_mem _ hk, List.map_map, List.map_map]
      refine List.map_congr_left fun p _ => ?_
      by_cases hp : p.1 = k
      · simp [hp]
      · simp [hp]
    · rw [entries_set_of_not_mem _ (by rwa [keys_mapValues])]
      show ((m.set k a).entries.map _) = m.entries.map _ ++ _
      rw [entries_set_of_not_mem _ hk, List.map_append]
      rfl
  cases h : (m.set k a).mapValues f
  cases h' : (m.mapValues f).set k (f a)
  rw [h, h'] at hentries
  cases hentries
  rfl

theorem mapValues_ofList {β : Type v} (f : α → β) (l : List (κ × α)) :
    (ofList l).mapValues f = ofList (l.map (fun p => (p.1, f p.2))) := by
  have hfold : ∀ (l : List (κ × α)) (m : OrderedMap κ α), (l.foldl (fun m p => m.set p.1 p.2) m).mapValues f
        = (l.map (fun p => (p.1, f p.2))).foldl (fun m p => m.set p.1 p.2) (m.mapValues f) := by
    intro l
    induction l with
    | nil => exact fun _ => rfl
    | cons p l ih =>
      intro m
      rw [List.foldl_cons, List.map_cons, List.foldl_cons, ih, mapValues_set]
  exact hfold l ∅

omit [DecidableEq κ] in
theorem entries_nodup : m.entries.Nodup := m.nodup_keys.of_map

theorem mem_entries_erase {k : κ} {p : κ × α} : p ∈ (m.erase k).entries ↔ p ∈ m.entries ∧ p.1 ≠ k := by
  simp [erase]

theorem entries_perm_erase {k : κ} {a : α} (h : m.get? k = some a) : m.entries.Perm ((k, a) :: (m.erase k).entries) := by
  have hfresh : (k, a) ∉ (m.erase k).entries := fun hmem => (m.mem_entries_erase.mp hmem).2 rfl
  refine (List.perm_ext_iff_of_nodup m.entries_nodup (List.nodup_cons.mpr ⟨hfresh, (m.erase k).entries_nodup⟩)).mpr ?_
  rintro ⟨k', b⟩
  rw [List.mem_cons, mem_entries_erase]
  have hkey := m.get?_eq_some_iff.mp h
  constructor
  · intro hb
    by_cases hk : k' = k
    · subst hk
      have hget := m.get?_eq_some_iff.mpr hb
      rw [h] at hget
      exact .inl (by rw [Option.some.inj hget])
    · exact .inr ⟨hb, hk⟩
  · rintro (heq | ⟨hb, -⟩)
    · rwa [heq]
    · exact hb

theorem entries_set_perm (k : κ) (a : α) : (m.set k a).entries.Perm ((k, a) :: (m.erase k).entries) := by
  have hfresh : (k, a) ∉ (m.erase k).entries := fun hmem => (m.mem_entries_erase.mp hmem).2 rfl
  refine (List.perm_ext_iff_of_nodup (m.set k a).entries_nodup
    (List.nodup_cons.mpr ⟨hfresh, (m.erase k).entries_nodup⟩)).mpr ?_
  rintro ⟨k', b⟩
  rw [mem_entries_set, List.mem_cons, mem_entries_erase, Prod.mk.injEq]
  exact or_congr_right and_comm

theorem erase_of_not_mem {k : κ} (h : m.get? k = none) : (m.erase k).entries = m.entries := by
  refine List.filter_eq_self.mpr fun p hp => ?_
  have hne : p.1 ≠ k := by
    rintro rfl
    exact m.get?_eq_none_iff.mp h (List.mem_map_of_mem hp)
  exact decide_eq_true hne

/-- The number of entries whose value satisfies `p`. -/
def countWhere (p : α → Bool) (m : OrderedMap κ α) : Nat := m.entries.countP (fun e => p e.2)

omit [DecidableEq κ] in
@[simp] theorem countWhere_empty (p : α → Bool) : (∅ : OrderedMap κ α).countWhere p = 0 := rfl

theorem countWhere_pos (p : α → Bool) (m : OrderedMap κ α) {k : κ} {a : α} (h : m.get? k = some a)
    (ha : p a = true) : 0 < m.countWhere p :=
  List.countP_pos_iff.mpr ⟨(k, a), m.get?_eq_some_iff.mp h, ha⟩

theorem countP_filter_key (p : α → Bool) (l : List (κ × α)) (hl : (l.map Prod.fst).Nodup) (k : κ) :
    (l.filter (fun e => e.1 ≠ k)).countP (fun e => p e.2)
      + (if ((l.find? (fun e => e.1 = k)).map Prod.snd).any p then 1 else 0)
      = l.countP (fun e => p e.2) := by
  induction l with
  | nil => simp
  | cons e l ih =>
    rw [List.map_cons, List.nodup_cons] at hl
    by_cases he : e.1 = k
    · have hfil : l.filter (fun e' => decide (e'.1 ≠ k)) = l := by
        refine List.filter_eq_self.mpr fun q hq => ?_
        have hqk : q.1 ≠ k := by
          rintro hqk
          exact hl.1 (by rw [he, ← hqk]; exact List.mem_map.mpr ⟨q, hq, rfl⟩)
        simpa using hqk
      rw [List.filter_cons_of_neg (by simp [he]), hfil, List.countP_cons]
      simp [he]
    · have ih' := ih hl.2
      rw [List.filter_cons_of_pos (by simpa using he), List.countP_cons, List.countP_cons,
        List.find?_cons_of_neg (by simpa using he)]
      omega

theorem countWhere_erase (p : α → Bool) (m : OrderedMap κ α) (k : κ) :
    (m.erase k).countWhere p + (if (m.get? k).any p then 1 else 0) = m.countWhere p :=
  countP_filter_key p m.entries m.nodup_keys k

theorem countP_map_replace (p : α → Bool) (l : List (κ × α)) (hl : (l.map Prod.fst).Nodup) (k : κ)
    (a : α) (h : k ∈ l.map Prod.fst) :
    (l.map (fun e => if e.1 = k then (k, a) else e)).countP (fun e => p e.2)
      + (if ((l.find? (fun e => e.1 = k)).map Prod.snd).any p then 1 else 0)
      = l.countP (fun e => p e.2) + (if p a then 1 else 0) := by
  induction l with
  | nil => simp at h
  | cons e l ih =>
    rw [List.map_cons, List.nodup_cons] at hl
    by_cases he : e.1 = k
    · have hmap : l.map (fun e' => if e'.1 = k then (k, a) else e') = l := by
        rw [List.map_congr_left (g := id), List.map_id]
        intro q hq
        have hqk : q.1 ≠ k := by
          rintro hqk
          exact hl.1 (by rw [he, ← hqk]; exact List.mem_map.mpr ⟨q, hq, rfl⟩)
        simp [hqk]
      rw [List.map_cons, hmap, List.countP_cons, List.countP_cons]
      simp [he]
      omega
    · have h' : k ∈ l.map Prod.fst := by
        rcases List.mem_cons.mp h with e' | e'
        · exact absurd e'.symm he
        · exact e'
      have ih' := ih hl.2 h'
      rw [List.map_cons, List.countP_cons, List.countP_cons, List.find?_cons_of_neg (by simpa using he)]
      simp only [he, if_false]
      omega

theorem countWhere_set (p : α → Bool) (m : OrderedMap κ α) (k : κ) (a : α) :
    (m.set k a).countWhere p + (if (m.get? k).any p then 1 else 0)
      = m.countWhere p + (if p a then 1 else 0) := by
  by_cases h : k ∈ m.keys
  · rw [countWhere, entries_set_of_mem m h]
    exact countP_map_replace p m.entries m.nodup_keys k a h
  · have hn : m.get? k = none := m.get?_eq_none_iff.mpr h
    rw [hn, countWhere, entries_set_of_not_mem m h, List.countP_append, List.countP_singleton]
    simp [countWhere]

/-- The sum of the weights of the values whose keys `p` rejects. -/
def weightOutside (p : κ → Bool) (w : α → Nat) (m : OrderedMap κ α) : Nat :=
  ((m.entries.filter (fun e => !p e.1)).map (fun e => w e.2)).sum

omit [DecidableEq κ] in
theorem weightOutside_congr {p q : κ → Bool} (w : α → Nat) (m : OrderedMap κ α)
    (h : ∀ k, p k = q k) : m.weightOutside p w = m.weightOutside q w := by
  rw [show p = q from funext h]

theorem weightOutside_insert {p q : κ → Bool} (w : α → Nat) (m : OrderedMap κ α) {k : κ}
    (hk : p k = false) (hq : ∀ x, q x = (p x || decide (x = k))) :
    m.weightOutside q w + ((m.get? k).map w).getD 0 = m.weightOutside p w := by
  have key : ∀ l : List (κ × α), (l.map Prod.fst).Nodup → ((l.filter (fun e => !q e.1)).map (fun e => w e.2)).sum
        + (((l.find? (fun e => e.1 = k)).map Prod.snd).map w).getD 0
        = ((l.filter (fun e => !p e.1)).map (fun e => w e.2)).sum := by
    intro l hl
    induction l with
    | nil => rfl
    | cons e l ih =>
      rw [List.map_cons, List.nodup_cons] at hl
      by_cases he : e.1 = k
      · have hfil : l.filter (fun e' => !q e'.1) = l.filter (fun e' => !p e'.1) := by
          refine List.filter_congr fun x hx => ?_
          have hxk : x.1 ≠ k := by
            rintro hxk
            exact hl.1 (by rw [he, ← hxk]; exact List.mem_map.mpr ⟨x, hx, rfl⟩)
          simp [hq, hxk]
        have hqe : q e.1 = true := by rw [hq]; simp [he]
        have hpe : p e.1 = false := by rw [he]; exact hk
        rw [List.filter_cons_of_neg (by simp [hqe]), List.filter_cons_of_pos (by simp [hpe]), hfil]
        simp [he]
        omega
      · have ih' := ih hl.2
        have hqe : q e.1 = p e.1 := by rw [hq]; simp [he]
        rw [List.find?_cons_of_neg (by simpa using he), List.filter_cons, List.filter_cons, hqe]
        cases hpe : p e.1 with
        | true => simpa using ih'
        | false =>
          simp only [Bool.not_false, if_true, List.map_cons, List.sum_cons]
          omega
  exact key m.entries m.nodup_keys

end OrderedMap

/-- A finite set that remembers the order in which its elements were first added. -/
structure OrderedSet (κ : Type u) where
  /-- The elements, in insertion order. -/
  elems : List κ
  /-- No element occurs twice. -/
  nodup : elems.Nodup
deriving DecidableEq

namespace OrderedSet

variable {κ : Type u}

def empty : OrderedSet κ := ⟨[], List.nodup_nil⟩

instance : EmptyCollection (OrderedSet κ) := ⟨empty⟩

instance : Inhabited (OrderedSet κ) := ⟨empty⟩

instance : Membership κ (OrderedSet κ) := ⟨fun s a => a ∈ s.elems⟩

theorem mem_def {s : OrderedSet κ} {a : κ} : a ∈ s ↔ a ∈ s.elems := Iff.rfl

def size (s : OrderedSet κ) : Nat := s.elems.length

@[simp] theorem not_mem_empty (a : κ) : a ∉ (∅ : OrderedSet κ) := List.not_mem_nil

@[simp] theorem elems_empty : (∅ : OrderedSet κ).elems = [] := rfl

theorem size_eq_zero (s : OrderedSet κ) : s.size = 0 ↔ ∀ a, a ∉ s := by
  rw [size, List.length_eq_zero_iff, List.eq_nil_iff_forall_not_mem]
  rfl

variable [DecidableEq κ]

instance (a : κ) (s : OrderedSet κ) : Decidable (a ∈ s) := inferInstanceAs (Decidable (a ∈ s.elems))

/-- Whether `a` is an element. -/
def has (s : OrderedSet κ) (a : κ) : Bool := decide (a ∈ s)

def add (s : OrderedSet κ) (a : κ) : OrderedSet κ :=
  if h : a ∈ s.elems then s
  else ⟨s.elems ++ [a], by
    rw [List.nodup_append]
    refine ⟨s.nodup, by simp, ?_⟩
    intro x hx y hy hxy
    rw [List.mem_singleton] at hy
    exact h (by rw [← hy, ← hxy]; exact hx)⟩

def erase (s : OrderedSet κ) (a : κ) : OrderedSet κ :=
  ⟨s.elems.filter (fun b => b ≠ a), s.nodup.sublist List.filter_sublist⟩

/-- The set of the listed elements, in the order of their first occurrence. -/
def ofList (l : List κ) : OrderedSet κ := l.foldl add ∅

def addAll (s : OrderedSet κ) (l : List κ) : OrderedSet κ := l.foldl add s

@[simp] theorem has_eq_true {s : OrderedSet κ} {a : κ} : s.has a = true ↔ a ∈ s := by simp [has]

@[simp] theorem has_eq_false {s : OrderedSet κ} {a : κ} : s.has a = false ↔ a ∉ s := by simp [has]

@[simp] theorem mem_add {s : OrderedSet κ} {a b : κ} : b ∈ s.add a ↔ b = a ∨ b ∈ s := by
  by_cases h : a ∈ s.elems
  · simp only [add, h, dif_pos]
    constructor
    · exact .inr
    · rintro (rfl | hb)
      · exact h
      · exact hb
  · simp [add, h, mem_def, or_comm]

@[simp] theorem mem_erase {s : OrderedSet κ} {a b : κ} : b ∈ s.erase a ↔ b ≠ a ∧ b ∈ s := by
  simp [erase, mem_def, and_comm]

@[simp] theorem mem_addAll {s : OrderedSet κ} {l : List κ} {b : κ} :
    b ∈ s.addAll l ↔ b ∈ l ∨ b ∈ s := by
  induction l generalizing s with
  | nil => simp [addAll]
  | cons a l ih =>
    have h := ih (s := s.add a)
    simp only [addAll, List.foldl_cons] at h ⊢
    rw [h, mem_add, List.mem_cons]
    tauto

@[simp] theorem mem_ofList {l : List κ} {b : κ} : b ∈ ofList l ↔ b ∈ l := by
  have h := mem_addAll (s := (∅ : OrderedSet κ)) (l := l) (b := b)
  simpa [addAll, ofList] using h

theorem add_of_mem {s : OrderedSet κ} {a : κ} (h : a ∈ s) : s.add a = s := by
  simp only [add, mem_def.mp h, dif_pos]

theorem elems_add_of_not_mem {s : OrderedSet κ} {a : κ} (h : a ∉ s) : (s.add a).elems = s.elems ++ [a] := by
  simp only [add, show ¬ a ∈ s.elems from h, dif_neg, not_false_eq_true]

theorem elems_erase (s : OrderedSet κ) (a : κ) : (s.erase a).elems = s.elems.erase a := by
  rw [s.nodup.erase_eq_filter]
  show s.elems.filter (fun b => b ≠ a) = s.elems.filter (fun b => b != a)
  apply List.filter_congr
  intro b _
  by_cases h : b = a
  · simp [h]
  · simp [h]

theorem erase_add {s : OrderedSet κ} {a : κ} (h : a ∉ s) : (s.add a).erase a = s := by
  have helems : ((s.add a).erase a).elems = s.elems := by
    rw [elems_erase, elems_add_of_not_mem h, List.erase_append_right _ h, List.erase_cons_head, List.append_nil]
  cases s with
  | mk elems nodup =>
    cases hs : ((OrderedSet.mk elems nodup).add a).erase a with
    | mk elems' nodup' =>
      rw [hs] at helems
      subst helems
      rfl

theorem size_add {s : OrderedSet κ} {a : κ} (h : a ∉ s) : (s.add a).size = s.size + 1 := by
  unfold size
  rw [elems_add_of_not_mem h, List.length_append, List.length_singleton]

theorem elems_addAll_of_nodup {l : List κ} (hl : l.Nodup) {s : OrderedSet κ} (h : ∀ a ∈ l, a ∉ s) :
    (s.addAll l).elems = s.elems ++ l := by
  induction l generalizing s with
  | nil => exact (List.append_nil _).symm
  | cons a l ih =>
    obtain ⟨hnew, hl⟩ := List.nodup_cons.mp hl
    have hrest : ∀ b ∈ l, b ∉ s.add a := by
      intro b hb hmem
      rcases mem_add.mp hmem with rfl | hmem
      · exact hnew hb
      · exact h b (List.mem_cons_of_mem _ hb) hmem
    show ((s.add a).addAll l).elems = _
    rw [ih hl hrest, elems_add_of_not_mem (h a List.mem_cons_self), List.append_assoc]
    rfl

end OrderedSet

/-- The distinct members of a list, in the order of their first occurrence. -/
def unique {κ : Type u} [DecidableEq κ] (l : List κ) : List κ := (OrderedSet.ofList l).elems

theorem unique_nodup {κ : Type u} [DecidableEq κ] (l : List κ) : (unique l).Nodup :=
  (OrderedSet.ofList l).nodup

@[simp] theorem mem_unique {κ : Type u} [DecidableEq κ] {l : List κ} {a : κ} :
    a ∈ unique l ↔ a ∈ l := OrderedSet.mem_ofList

theorem unique_of_nodup {κ : Type u} [DecidableEq κ] {l : List κ} (h : l.Nodup) : unique l = l :=
  (OrderedSet.elems_addAll_of_nodup h (fun a _ => OrderedSet.not_mem_empty a)).trans
    (List.nil_append l)

theorem unique_perm {κ : Type u} [DecidableEq κ] {l l' : List κ} (h : l.Perm l') : (unique l).Perm (unique l') := by
  apply (List.perm_ext_iff_of_nodup (unique_nodup l) (unique_nodup l')).mpr
  intro a
  rw [mem_unique, mem_unique, h.mem_iff]

end Premise.Collections
