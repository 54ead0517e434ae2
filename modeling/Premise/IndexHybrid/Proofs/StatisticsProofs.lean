import Premise.Control.Except
import Premise.IndexHybrid.Search

/-!
# The corpus statistics

Adding a document to the statistics, or removing it, gives the statistics of the documents with it, or without
it; so every completed call keeps them those of the stored documents.
-/

namespace Premise.IndexHybrid

open Collections Control Js

variable {T : Type}

/-- What a fold over distinct tokens leaves of an index, from what one token does. -/
structure Folded (f : Option Int → Option Int) (g : Option (OrderedSet String) → Option (OrderedSet String))
    (tokens : List String) (before after : HybridIndex T) : Prop where
  frequency : ∀ token, after.documentFrequency.get? token
    = if token ∈ tokens then f (before.documentFrequency.get? token) else before.documentFrequency.get? token
  postings : ∀ token, after.invertedIndex.get? token
    = if token ∈ tokens then g (before.invertedIndex.get? token) else before.invertedIndex.get? token
  rest : ∃ documentFrequency invertedIndex,
    after = { before with documentFrequency := documentFrequency, invertedIndex := invertedIndex }

theorem folded_foldl {step : HybridIndex T → String → HybridIndex T} {f : Option Int → Option Int}
    {g : Option (OrderedSet String) → Option (OrderedSet String)}
    (hstep : ∀ index token, Folded f g [token] index (step index token)) {tokens : List String} (hnodup : tokens.Nodup)
    (index : HybridIndex T) : Folded f g tokens index (tokens.foldl step index) := by
  induction tokens generalizing index with
  | nil => exact ⟨fun token => by simp, fun token => by simp, ⟨_, _, rfl⟩⟩
  | cons first tokens ih =>
    obtain ⟨hnew, hnodup⟩ := List.nodup_cons.mp hnodup
    obtain ⟨hfrequency, hpostings, documentFrequency, invertedIndex, hone⟩ := hstep index first
    obtain ⟨hfrequency', hpostings', documentFrequency', invertedIndex', hrest⟩ := ih hnodup (step index first)
    refine ⟨?_, ?_, ⟨documentFrequency', invertedIndex', ?_⟩⟩
    · intro token
      rw [List.foldl_cons, hfrequency', hfrequency]
      by_cases htoken : token = first
      · simp [htoken, hnew]
      · simp [htoken]
    · intro token
      rw [List.foldl_cons, hpostings', hpostings]
      by_cases htoken : token = first
      · simp [htoken, hnew]
      · simp [htoken]
    · rw [List.foldl_cons, hrest, hone]

theorem folded_addToken (id : String) (index : HybridIndex T) (token : String) :
    Folded (fun count => some (count.getD 0 + 1)) (fun postings => some ((postings.getD ∅).add id)) [token] index
      (index.addToken id token) := by
  refine ⟨?_, ?_, ⟨_, _, rfl⟩⟩
  · intro token'
    simp only [HybridIndex.addToken, OrderedMap.get?_set, List.mem_singleton]
    split_ifs with h
    · rw [h]
    · rfl
  · intro token'
    simp only [HybridIndex.addToken, OrderedMap.get?_set, List.mem_singleton]
    split_ifs with h
    · rw [h]
    · rfl

/-- A count after one document was taken off; no count is left at zero. -/
def decremented (count : Option Int) : Option Int := if count.getD 0 - 1 ≤ 0 then none else some (count.getD 0 - 1)

def without (id : String) (postings : Option (OrderedSet String)) : Option (OrderedSet String) :=
  postings.bind (fun postings => if (postings.erase id).size = 0 then none else some (postings.erase id))

theorem get?_removePosting (invertedIndex : OrderedMap String (OrderedSet String)) (token id token' : String) :
    (HybridIndex.removePosting invertedIndex token id).get? token'
      = if token' = token then without id (invertedIndex.get? token') else invertedIndex.get? token' := by
  unfold HybridIndex.removePosting without
  by_cases htoken : token' = token
  · subst htoken
    rw [if_pos rfl]
    cases hpostings : invertedIndex.get? token' with
    | none => exact hpostings
    | some postings =>
      dsimp only [Option.bind_some]
      split_ifs
      · simp
      · simp
  · rw [if_neg htoken]
    split
    · rfl
    · split_ifs
      · exact OrderedMap.get?_erase_of_ne _ htoken
      · exact OrderedMap.get?_set_of_ne _ _ htoken

theorem folded_removeToken (id : String) (index : HybridIndex T) (token : String) :
    Folded decremented (without id) [token] index (index.removeToken id token) := by
  refine ⟨?_, ?_, ⟨_, _, rfl⟩⟩
  · intro token'
    simp only [HybridIndex.removeToken, List.mem_singleton]
    unfold decremented
    by_cases htoken : token' = token
    · subst htoken
      rw [if_pos rfl]
      split_ifs
      · simp
      · simp
    · rw [if_neg htoken]
      split_ifs
      · exact OrderedMap.get?_erase_of_ne _ htoken
      · exact OrderedMap.get?_set_of_ne _ _ htoken
  · intro token'
    simp only [HybridIndex.removeToken, List.mem_singleton]
    exact get?_removePosting _ _ _ _

/-! ## One document -/

def Fresh (id : String) (documents : List (StoredDocument T)) : Prop := ∀ stored ∈ documents, stored.document.id ≠ id

variable {documents : List (StoredDocument T)} {index index' : HybridIndex T} {stored : StoredDocument T}

theorem mem_recountPostings {token id : String} : id ∈ recountPostings documents token
      ↔ ∃ stored ∈ documents, token ∈ stored.tokens ∧ stored.document.id = id := by
  simp only [recountPostings, List.mem_map, List.mem_filter, decide_eq_true_eq, and_assoc]

theorem recountPostings_eq_nil {token : String} :
    recountPostings documents token = [] ↔ recountFrequency documents token = 0 := by
  rw [recountPostings, List.map_eq_nil_iff, recountFrequency, List.countP_eq_length_filter, List.length_eq_zero_iff]

theorem recountFrequency_cons (stored : StoredDocument T) (documents : List (StoredDocument T)) (token : String) :
    recountFrequency (stored :: documents) token
      = recountFrequency documents token + if token ∈ stored.tokens then 1 else 0 := by
  rw [recountFrequency, List.countP_cons]
  simp only [decide_eq_true_eq]
  rfl

theorem Recounted.perm {documents' : List (StoredDocument T)} (h : Recounted index documents)
    (hperm : documents.Perm documents') : Recounted index documents' := by
  have hfrequency : ∀ token, recountFrequency documents token = recountFrequency documents' token :=
    fun token => hperm.countP_eq _
  have hmem : ∀ token id, id ∈ recountPostings documents token ↔ id ∈ recountPostings documents' token := by
    intro token id
    simp only [mem_recountPostings, hperm.mem_iff]
  refine ⟨?_, ?_, ?_, ?_⟩
  · intro token
    rw [← hfrequency]
    exact h.frequency token
  · intro token
    rw [recountPostings_eq_nil, ← hfrequency, ← recountPostings_eq_nil]
    exact h.absent token
  · intro token postings hpostings id
    rw [← hmem]
    exact h.postings token postings hpostings id
  · rw [h.length]
    exact congrArg Int.ofNat (hperm.map _).sum_eq

theorem Recounted.of_same (h : Recounted index documents)
    (hfrequency : index'.documentFrequency = index.documentFrequency)
    (hpostings : index'.invertedIndex = index.invertedIndex)
    (hlength : index'.totalDocumentLength = index.totalDocumentLength) : Recounted index' documents := by
  obtain ⟨h1, h2, h3, h4⟩ := h
  exact ⟨by rwa [hfrequency], by rwa [hpostings], by rwa [hpostings], by rwa [hlength]⟩

theorem recounted_addStatistics (h : Recounted index documents) (stored : StoredDocument T) :
    Recounted (index.addStatistics stored) (stored :: documents) := by
  obtain ⟨hfrequency, hpostings, documentFrequency, invertedIndex, hrest⟩ :=
    folded_foldl (folded_addToken stored.document.id) (unique_nodup stored.tokens)
      { index with totalDocumentLength := index.totalDocumentLength + stored.tokens.length }
  simp only [mem_unique] at hfrequency hpostings
  have hold : ∀ token, index.invertedIndex.get? token = none → recountPostings documents token = [] :=
    fun token => (h.absent token).mp
  refine ⟨?_, ?_, ?_, ?_⟩
  · intro token
    rw [HybridIndex.addStatistics, hfrequency, h.frequency, recountFrequency_cons]
    by_cases htoken : token ∈ stored.tokens
    · rw [if_pos htoken, if_pos htoken, if_neg (Nat.succ_ne_zero _)]
      split_ifs with hzero
      · rw [hzero]
        rfl
      · simp
    · rw [if_neg htoken, if_neg htoken, Nat.add_zero]
  · intro token
    rw [HybridIndex.addStatistics, hpostings, recountPostings_eq_nil, recountFrequency_cons]
    by_cases htoken : token ∈ stored.tokens
    · simp [htoken]
    · rw [if_neg htoken, if_neg htoken, Nat.add_zero, ← recountPostings_eq_nil]
      exact h.absent token
  · intro token postings hget id
    rw [HybridIndex.addStatistics, hpostings] at hget
    rw [mem_recountPostings]
    by_cases htoken : token ∈ stored.tokens
    · rw [if_pos htoken] at hget
      cases hget
      rw [OrderedSet.mem_add]
      have hbefore : id ∈ (index.invertedIndex.get? token).getD ∅ ↔ id ∈ recountPostings documents token := by
        cases hget' : index.invertedIndex.get? token with
        | none =>
          rw [hold token hget']
          exact iff_of_false (OrderedSet.not_mem_empty id) List.not_mem_nil
        | some postings => exact h.postings token postings hget' id
      rw [hbefore, mem_recountPostings]
      simp only [List.mem_cons, exists_eq_or_imp, htoken, true_and]
      exact or_congr_left eq_comm
    · rw [if_neg htoken] at hget
      rw [h.postings token postings hget id, mem_recountPostings]
      simp only [List.mem_cons, exists_eq_or_imp, htoken, false_and, false_or]
  · rw [HybridIndex.addStatistics, hrest]
    rw [h.length, recountLength, recountLength, List.map_cons, List.sum_cons]
    push_cast
    ring

theorem recounted_removeStatistics (h : Recounted index (stored :: documents))
    (hfresh : Fresh stored.document.id documents) :
    Recounted (index.removeStatistics stored) documents := by
  obtain ⟨hfrequency, hpostings, documentFrequency, invertedIndex, hrest⟩ :=
    folded_foldl (folded_removeToken stored.document.id) (unique_nodup stored.tokens)
      { index with totalDocumentLength := index.totalDocumentLength - stored.tokens.length }
  simp only [mem_unique] at hfrequency hpostings
  have hpresent : ∀ token ∈ stored.tokens, ∃ postings, index.invertedIndex.get? token = some postings := by
    intro token htoken
    refine Option.ne_none_iff_exists'.mp fun hnone => ?_
    have hzero := recountPostings_eq_nil.mp ((h.absent token).mp hnone)
    rw [recountFrequency_cons, if_pos htoken] at hzero
    exact Nat.succ_ne_zero _ hzero
  have hleft : ∀ token ∈ stored.tokens, ∀ postings, index.invertedIndex.get? token = some postings →
      ∀ id, id ∈ postings.erase stored.document.id ↔ id ∈ recountPostings documents token := by
    intro token htoken postings hget id
    rw [OrderedSet.mem_erase, h.postings token postings hget id, mem_recountPostings, mem_recountPostings]
    simp only [List.mem_cons, exists_eq_or_imp, htoken, true_and]
    constructor
    · rintro ⟨hne, heq | hmem⟩
      · exact absurd heq.symm hne
      · exact hmem
    · rintro ⟨other, hother, hin, rfl⟩
      exact ⟨hfresh other hother, .inr ⟨other, hother, hin, rfl⟩⟩
  have hsize : ∀ token ∈ stored.tokens, ∀ postings, index.invertedIndex.get? token = some postings →
      ((postings.erase stored.document.id).size = 0 ↔ recountPostings documents token = []) := by
    intro token htoken postings hget
    rw [OrderedSet.size_eq_zero, List.eq_nil_iff_forall_not_mem]
    exact forall_congr' fun id => not_congr (hleft token htoken postings hget id)
  refine ⟨?_, ?_, ?_, ?_⟩
  · intro token
    rw [HybridIndex.removeStatistics, hfrequency, h.frequency, recountFrequency_cons]
    by_cases htoken : token ∈ stored.tokens
    · rw [if_pos htoken, if_pos htoken, if_neg (Nat.succ_ne_zero _)]
      unfold decremented
      simp only [Option.getD_some, Nat.cast_add, Nat.cast_one, add_sub_cancel_right]
      by_cases hzero : recountFrequency documents token = 0
      · rw [if_pos hzero, hzero]
        rfl
      · rw [if_neg hzero, if_neg (by omega)]
    · rw [if_neg htoken, if_neg htoken, Nat.add_zero]
  · intro token
    rw [HybridIndex.removeStatistics, hpostings]
    by_cases htoken : token ∈ stored.tokens
    · obtain ⟨postings, hget⟩ := hpresent token htoken
      rw [if_pos htoken, hget, without, Option.bind_some, ← hsize token htoken postings hget]
      split_ifs with hempty
      · exact iff_of_true rfl hempty
      · exact iff_of_false (by simp) hempty
    · rw [if_neg htoken, h.absent, recountPostings_eq_nil, recountPostings_eq_nil, recountFrequency_cons, if_neg htoken, Nat.add_zero]
  · intro token postings hget id
    rw [HybridIndex.removeStatistics, hpostings] at hget
    by_cases htoken : token ∈ stored.tokens
    · obtain ⟨before, hbefore⟩ := hpresent token htoken
      rw [if_pos htoken, hbefore, without, Option.bind_some] at hget
      split_ifs at hget
      cases hget
      exact hleft token htoken before hbefore id
    · rw [if_neg htoken] at hget
      rw [h.postings token postings hget id, mem_recountPostings, mem_recountPostings]
      simp only [List.mem_cons, exists_eq_or_imp, htoken, false_and, false_or]
  · rw [HybridIndex.removeStatistics, hrest]
    rw [h.length, recountLength, recountLength, List.map_cons, List.sum_cons]
    push_cast
    ring

/-! ## All changes -/

/-- The stored documents and what the index holds about them. -/
structure Sound (index : HybridIndex T) : Prop where
  counted : Recounted index index.documents.values
  keyed : ∀ id stored, index.documents.get? id = some stored → stored.document.id = id
  frequencies : ∀ id stored, index.documents.get? id = some stored → stored.termFrequency = termFrequency stored.tokens
  dimension : ∀ id stored, index.documents.get? id = some stored → index.vectorDimensions = some stored.vector.length

theorem documents_addStatistics (index : HybridIndex T) (stored : StoredDocument T) :
    (index.addStatistics stored).documents = index.documents := by
  obtain ⟨-, -, documentFrequency, invertedIndex, hrest⟩ :=
    folded_foldl (folded_addToken stored.document.id) (unique_nodup stored.tokens)
      { index with totalDocumentLength := index.totalDocumentLength + stored.tokens.length }
  rw [HybridIndex.addStatistics, hrest]

theorem removeStatistics_eq (index : HybridIndex T) (stored : StoredDocument T) :
    (index.removeStatistics stored).documents = index.documents
      ∧ (index.removeStatistics stored).vectorDimensions = index.vectorDimensions := by
  obtain ⟨-, -, documentFrequency, invertedIndex, hrest⟩ :=
    folded_foldl (folded_removeToken stored.document.id) (unique_nodup stored.tokens)
      { index with totalDocumentLength := index.totalDocumentLength - stored.tokens.length }
  rw [HybridIndex.removeStatistics, hrest]
  exact ⟨rfl, rfl⟩

theorem Sound.fresh_erase (h : Sound index) (id : String) : Fresh id (index.documents.erase id).values := by
  intro stored hstored
  obtain ⟨id', hget⟩ := (OrderedMap.mem_values _).mp hstored
  rw [OrderedMap.get?_erase] at hget
  split_ifs at hget with hid
  rw [h.keyed id' stored hget]
  exact hid

theorem Sound.recounted_removed (h : Sound index) {id : String} (hget : index.documents.get? id = some stored) :
    Recounted (index.removeStatistics stored) (index.documents.erase id).values := by
  have hperm := (index.documents.entries_perm_erase hget).map Prod.snd
  have hid := h.keyed id stored hget
  refine recounted_removeStatistics (h.counted.perm hperm) ?_
  rw [hid]
  exact h.fresh_erase id

theorem documents_removePrevious (index : HybridIndex T) (id : String) :
    (index.removePrevious id).documents = index.documents := by
  unfold HybridIndex.removePrevious
  cases hget : index.documents.get? id with
  | none => rfl
  | some previous => exact (removeStatistics_eq index previous).1

theorem Sound.recounted_removePrevious (h : Sound index) (id : String) :
    Recounted (index.removePrevious id) (index.documents.erase id).values := by
  unfold HybridIndex.removePrevious
  cases hget : index.documents.get? id with
  | none =>
    rw [OrderedMap.values, index.documents.erase_of_not_mem hget]
    exact h.counted
  | some previous => exact h.recounted_removed hget

theorem documents_store (index : HybridIndex T) (id : String) (stored : StoredDocument T) :
    (index.store id stored).documents = index.documents.set id stored := documents_addStatistics _ stored

theorem documents_write (index : HybridIndex T) (pending : HybridIndex.Prepared T) (vector : List ℚ) :
    (index.write pending vector).documents = index.documents.set pending.snapshot.id
      ⟨pending.snapshot, pending.tokens, termFrequency pending.tokens, vector⟩ := by
  rw [HybridIndex.write, documents_store, documents_removePrevious]

theorem Sound.write (h : Sound index) (pending : HybridIndex.Prepared T) (vector : List ℚ)
    (hdimension : ∀ dimensions, index.vectorDimensions = some dimensions → vector.length = dimensions) :
    Sound (index.write pending vector) := by
  have hcounted := h.recounted_removePrevious pending.snapshot.id
  have hwritten := documents_write index pending vector
  have hlookup : ∀ id entry, (index.write pending vector).documents.get? id = some entry →
      (id = pending.snapshot.id ∧ entry = ⟨pending.snapshot, pending.tokens, termFrequency pending.tokens, vector⟩)
        ∨ index.documents.get? id = some entry := by
    intro id entry hget
    rw [hwritten, OrderedMap.get?_set] at hget
    split_ifs at hget with hid
    · exact .inl ⟨hid, (Option.some.inj hget).symm⟩
    · exact .inr hget
  refine ⟨?_, ?_, ?_, ?_⟩
  · rw [hwritten, HybridIndex.write]
    generalize (⟨pending.snapshot, pending.tokens, termFrequency pending.tokens, vector⟩ : StoredDocument T) = stored
    have hbase : Recounted { index.removePrevious pending.snapshot.id with
        documents := (index.removePrevious pending.snapshot.id).documents.set pending.snapshot.id stored }
        (index.documents.erase pending.snapshot.id).values := hcounted.of_same rfl rfl rfl
    have hadded := recounted_addStatistics hbase stored
    have hperm := (index.documents.entries_set_perm pending.snapshot.id stored).map Prod.snd
    exact (hadded.perm hperm.symm).of_same rfl rfl rfl
  · intro id entry hget
    rcases hlookup id entry hget with ⟨rfl, rfl⟩ | hold
    · rfl
    · exact h.keyed id entry hold
  · intro id entry hget
    rcases hlookup id entry hget with ⟨rfl, rfl⟩ | hold
    · rfl
    · exact h.frequencies id entry hold
  · intro id entry hget
    rcases hlookup id entry hget with ⟨rfl, rfl⟩ | hold
    · rfl
    · rw [← hdimension _ (h.dimension id entry hold)]
      rfl

theorem commit_ok {pending : HybridIndex.Prepared T} {answer : Except JsError (List Number)}
    (hcommit : index.commit pending answer = .ok index') :
    ∃ vector, embed answer = .ok vector
      ∧ (∀ dimensions, index.vectorDimensions = some dimensions → vector.length = dimensions)
      ∧ index' = index.write pending vector := by
  obtain ⟨vector, hvector, hrest⟩ := of_bind_ok hcommit
  refine ⟨vector, hvector, ?_⟩
  cases hdimensions : index.vectorDimensions with
  | none =>
    rw [hdimensions] at hrest
    exact ⟨fun _ heq => (by cases heq), (Except.ok.inj hrest).symm⟩
  | some dimensions =>
    rw [hdimensions] at hrest
    dsimp only at hrest
    split_ifs at hrest with hlength
    refine ⟨fun dimensions' heq => ?_, (Except.ok.inj hrest).symm⟩
    exact (not_ne_iff.mp hlength).trans (Option.some.inj heq)

theorem Sound.commit {index index' : HybridIndex T} (h : Sound index) {pending : HybridIndex.Prepared T}
    {answer : Except JsError (List Number)} (hcommit : index.commit pending answer = .ok index') : Sound index' := by
  obtain ⟨vector, -, hdimension, rfl⟩ := commit_ok hcommit
  exact h.write pending vector hdimension

theorem Sound.upsert (h : Sound index) {document : HybridDocument T} {answer : Except JsError (List Number)}
    (hupsert : index.upsert document answer = .ok index') : Sound index' := by
  obtain ⟨pending, -, hcommit⟩ := of_bind_ok hupsert
  exact h.commit hcommit

theorem delete_of_get? {id : String} (hget : index.documents.get? id = some stored) :
    index.delete id = ({ index.removeStatistics stored with
      documents := index.documents.erase id
      vectorDimensions := if (index.documents.erase id).size = 0 then none else index.vectorDimensions }, true) := by
  obtain ⟨hdocuments, hdimensions⟩ := removeStatistics_eq index stored
  unfold HybridIndex.delete
  rw [hget]
  dsimp only
  rw [hdocuments, hdimensions]

theorem Sound.delete (h : Sound index) (id : String) : Sound (index.delete id).1 := by
  cases hget : index.documents.get? id with
  | none =>
    unfold HybridIndex.delete
    rw [hget]
    exact h
  | some stored =>
    rw [delete_of_get? hget]
    have hlookup : ∀ id' entry, (index.documents.erase id).get? id' = some entry →
        index.documents.get? id' = some entry := by
      intro id' entry herased
      rw [OrderedMap.get?_erase] at herased
      split_ifs at herased
      exact herased
    refine ⟨(h.recounted_removed hget).of_same rfl rfl rfl, ?_, ?_, ?_⟩
    · exact fun id' entry herased => h.keyed id' entry (hlookup id' entry herased)
    · exact fun id' entry herased => h.frequencies id' entry (hlookup id' entry herased)
    · intro id' entry herased
      have hsize : (index.documents.erase id).size ≠ 0 := by
        intro hzero
        have hnone := (OrderedMap.size_eq_zero _).mp hzero id'
        rw [hnone] at herased
        cases herased
      rw [if_neg hsize]
      exact h.dimension id' entry (hlookup id' entry herased)

theorem sound_empty (hdocuments : index.documents = ∅) (hfrequency : index.documentFrequency = ∅)
    (hpostings : index.invertedIndex = ∅) (hlength : index.totalDocumentLength = 0) : Sound index := by
  have hnone : ∀ id stored, index.documents.get? id ≠ some stored := by
    intro id stored hget
    rw [hdocuments] at hget
    cases hget
  refine ⟨⟨?_, ?_, ?_, ?_⟩, ?_, ?_, ?_⟩
  · intro token
    rw [hfrequency, hdocuments]
    rfl
  · intro token
    rw [hpostings, hdocuments]
    exact iff_of_true rfl rfl
  · intro token postings hget
    rw [hpostings] at hget
    cases hget
  · rw [hlength, hdocuments]
    rfl
  · exact fun id stored hget => absurd hget (hnone id stored)
  · exact fun id stored hget => absurd hget (hnone id stored)
  · exact fun id stored hget => absurd hget (hnone id stored)

theorem sound_new {options : HybridIndexOptions} (h : HybridIndex.new options = .ok index) : Sound index := by
  obtain ⟨weights, -, hindex⟩ := of_bind_ok h
  cases hindex
  exact sound_empty rfl rfl rfl rfl

theorem Sound.change (h : Sound index) (call : Change T) : Sound (index.change call) := by
  cases call with
  | upsert document answer =>
    unfold HybridIndex.change
    dsimp only
    cases hupsert : index.upsert document answer with
    | error error => exact h
    | ok index' => exact h.upsert hupsert
  | update document answer =>
    unfold HybridIndex.change
    dsimp only
    cases hupdate : index.update document answer with
    | error error => exact h
    | ok index' =>
      obtain ⟨-, -, hupsert⟩ := of_bind_ok hupdate
      exact h.upsert hupsert
  | delete id => exact h.delete id
  | clear => exact sound_empty rfl rfl rfl rfl

theorem sound_of_reachable {options : HybridIndexOptions} (h : (changes (T := T) options).Reachable index) : Sound index :=
  h.invariant Sound (fun _ hinit => sound_new hinit)
    (fun _ call _ hsound hstep => by rw [hstep]; exact hsound.change call)

def wordOptions : HybridIndexOptions := { tokenizer := words }

def wordIndex : HybridIndex Unit :=
  { tokenizer := words, defaultLexicalWeight := 1 / 2, defaultVectorWeight := 1 / 2 }

theorem new_wordOptions : HybridIndex.new wordOptions = .ok wordIndex := by
  have hweight : ∀ name, validateWeight (.finite (1 / 2)) name = .ok (1 / 2) := fun _ => if_neg (by norm_num)
  have hsum : ¬ ((1 : ℚ) / 2 + 1 / 2 = 0) := by norm_num
  unfold HybridIndex.new resolveWeights wordOptions defaultWeight
  dsimp only [Option.getD_none]
  rw [hweight, ok_bind, hweight, ok_bind, if_neg hsum]
  rfl

end Premise.IndexHybrid
