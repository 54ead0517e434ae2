import Premise.ContextEngine.Units
import Premise.Control.Except

/-!
# Proofs: the chunks of a text

Cutting a text into chunks loses no character that shows, and every chunk is small enough, unless it is one character
that is too large by itself. Whatever the estimator says, the text that is being filled was estimated before it is
closed.
-/

namespace Premise.ContextEngine

open Control Js

def visible (text : String) : List Char := text.toList.filter (fun c => !isWhitespace c)

@[simp] theorem visible_append (left right : String) : visible (left ++ right) = visible left ++ visible right := by
  simp [visible]

@[simp] theorem visible_space : visible " " = [] := by decide +kernel

theorem visible_flatMap_toList (parts : List String) :
    parts.flatMap visible = (parts.flatMap String.toList).filter (fun c => !isWhitespace c) := by
  rw [List.filter_flatMap]
  rfl

theorem visible_join (parts : List String) : visible (String.join parts) = parts.flatMap visible := by
  rw [visible_flatMap_toList, visible, String.toList_join]

theorem filter_dropWhile (p : Char → Bool) (l : List Char) :
    (l.dropWhile p).filter (fun c => !p c) = l.filter (fun c => !p c) := by
  induction l with
  | nil => rfl
  | cons c l ih =>
    by_cases h : p c = true
    · simp [h, ih]
    · simp [h]

theorem visible_trim (text : String) : visible (trim text) = visible text := by
  unfold visible trim
  rw [String.toList_ofList, List.filter_reverse, filter_dropWhile, ← List.filter_reverse, List.reverse_reverse,
    filter_dropWhile]

theorem flatten_splitOnP (p : Char → Bool) (l : List Char) : (l.splitOnP p).flatten = l.filter (fun c => !p c) := by
  induction l with
  | nil => simp
  | cons c l ih =>
    rw [List.splitOnP_cons_eq_if_modifyHead]
    by_cases h : p c = true
    · simp [h, ih]
    · obtain ⟨first, rest, hsplit⟩ := List.exists_cons_of_ne_nil (List.splitOnP_ne_nil p l)
      rw [hsplit, List.flatten_cons] at ih
      simp [h, hsplit, ih]

theorem flatten_filter_ne_nil (parts : List (List Char)) : (parts.filter (fun part => part ≠ [])).flatten = parts.flatten := by
  induction parts with
  | nil => rfl
  | cons part parts ih =>
    cases part with
    | nil | cons => simpa using ih

theorem visible_words (value : String) : (words value).flatMap visible = visible value := by
  have hwords : (words value).flatMap String.toList = visible value := by
    unfold words
    rw [List.flatMap_map]
    simp only [String.toList_ofList]
    rw [List.flatMap_id', flatten_filter_ne_nil, flatten_splitOnP]
    rfl
  rw [visible_flatMap_toList, hwords]
  simp [visible]

def Fits (maxTokens : Nat) (estimator : TokenEstimator) (text : String) : Prop :=
  ∃ tokens, tokenCount text estimator = .ok tokens ∧ tokens ≤ maxTokens

/-- A chunk is not empty, and fits or is a single character. -/
structure Bounded (maxTokens : Nat) (estimator : TokenEstimator) (chunk : String) : Prop where
  nonempty : chunk ≠ ""
  fits : Fits maxTokens estimator chunk ∨ chunk.toList.length = 1

section Cutting

variable {maxTokens : Nat} {estimator : TokenEstimator}

/-- The characters that were read are in the parts, and the parts are bounded. -/
structure WordParts.Sound (maxTokens : Nat) (estimator : TokenEstimator) (done : List Char) (w : WordParts) : Prop where
  content : w.parts.flatMap String.toList ++ w.part.toList = done
  parts : ∀ part ∈ w.parts, Bounded maxTokens estimator part
  part : w.part ≠ "" → Fits maxTokens estimator w.part

theorem WordParts.close_sound {w w' : WordParts} {done : List Char}
    (hcontent : w.parts.flatMap String.toList ++ w.part.toList = done)
    (hparts : ∀ part ∈ w.parts, Bounded maxTokens estimator part) (hpart : Bounded maxTokens estimator w.part)
    (h : w.close maxTokens estimator = .ok w') : w'.Sound maxTokens estimator done := by
  unfold WordParts.close at h
  obtain ⟨tokens, htokens, hclosed⟩ := of_bind_ok h
  split_ifs at hclosed with hlarge
  · cases hclosed
    refine ⟨?_, ?_, fun hempty => absurd rfl hempty⟩
    · simpa using hcontent
    · intro part hmem
      rcases List.mem_append.mp hmem with hmem | hmem
      · exact hparts part hmem
      · obtain rfl := List.mem_singleton.mp hmem
        exact hpart
  · cases hclosed
    exact ⟨hcontent, hparts, fun _ => ⟨tokens, htokens, not_lt.mp hlarge⟩⟩

theorem bounded_singleton (c : Char) : Bounded maxTokens estimator (String.singleton c) where
  nonempty := by simp
  fits := Or.inr (by simp)

theorem WordParts.Sound.push {w w' : WordParts} {done : List Char} {c : Char} (hw : w.Sound maxTokens estimator done)
    (h : w.push maxTokens estimator c = .ok w') : w'.Sound maxTokens estimator (done ++ [c]) := by
  have hcontent : w.parts.flatMap String.toList ++ (w.part ++ String.singleton c).toList = done ++ [c] := by
    rw [String.toList_append, String.toList_singleton, ← List.append_assoc, hw.content]
  unfold WordParts.push at h
  by_cases hempty : w.part = ""
  · rw [if_neg (not_not.mpr hempty)] at h
    refine WordParts.close_sound (w := ⟨w.parts, w.part ++ String.singleton c⟩) hcontent hw.parts ?_ h
    rw [hempty, String.empty_append]
    exact bounded_singleton c
  · rw [if_pos hempty] at h
    have hpart : Bounded maxTokens estimator w.part := ⟨hempty, Or.inl (hw.part hempty)⟩
    obtain ⟨tokens, htokens, hclosed⟩ := of_bind_ok h
    split_ifs at hclosed with hlarge
    -- The part is finished; the character begins another one.
    · refine WordParts.close_sound ?_ ?_ (bounded_singleton c) hclosed
      · rw [List.flatMap_append, ← hcontent]
        simp
      · intro part hmem
        rcases List.mem_append.mp hmem with hmem | hmem
        · exact hw.parts part hmem
        · obtain rfl := List.mem_singleton.mp hmem
          exact hpart
    · refine WordParts.close_sound (w := ⟨w.parts, w.part ++ String.singleton c⟩) hcontent hw.parts
        ⟨?_, Or.inl ⟨tokens, htokens, not_lt.mp hlarge⟩⟩ hclosed
      intro hnone
      have hlength := congrArg (fun text => text.toList.length) hnone
      simp at hlength

theorem splitOversizedWord_sound {word : String} {parts : List String}
    (h : splitOversizedWord word maxTokens estimator = .ok parts) :
    parts.flatMap String.toList = word.toList ∧ ∀ part ∈ parts, Bounded maxTokens estimator part := by
  unfold splitOversizedWord at h
  obtain ⟨w, hread, hreturn⟩ := of_bind_ok h
  have hw : w.Sound maxTokens estimator word.toList := by
    refine of_foldlM_ok (fun done w => w.Sound maxTokens estimator done) ?_ ?_ hread
    · intro done c _ w w' hsound hpush
      exact hsound.push hpush
    · exact ⟨rfl, fun part hmem => absurd hmem List.not_mem_nil, fun hempty => absurd rfl hempty⟩
  cases hreturn
  split_ifs with hempty
  · refine ⟨?_, ?_⟩
    · rw [← hw.content]
      simp
    · intro part hmem
      rcases List.mem_append.mp hmem with hmem | hmem
      · exact hw.parts part hmem
      · obtain rfl := List.mem_singleton.mp hmem
        exact ⟨hempty, Or.inl (hw.part hempty)⟩
  · have hnone : w.part = "" := not_not.mp hempty
    refine ⟨?_, hw.parts⟩
    rw [← hw.content, hnone]
    simp

/-- The words that were read show in the chunks, and the chunks are bounded. -/
structure Chunks.Sound (maxTokens : Nat) (estimator : TokenEstimator) (done : List String) (c : Chunks) : Prop where
  content : c.chunks.flatMap visible ++ visible c.current = done.flatMap visible
  chunks : ∀ chunk ∈ c.chunks, Bounded maxTokens estimator chunk
  current : c.current ≠ "" → Fits maxTokens estimator c.current

theorem Chunks.Sound.closed {c : Chunks} {done : List String} (hc : c.Sound maxTokens estimator done) :
    c.closed.flatMap visible = done.flatMap visible ∧ ∀ chunk ∈ c.closed, Bounded maxTokens estimator chunk := by
  unfold Chunks.closed
  split_ifs with hempty
  · refine ⟨?_, ?_⟩
    · rw [← hc.content]
      simp
    · intro chunk hmem
      rcases List.mem_append.mp hmem with hmem | hmem
      · exact hc.chunks chunk hmem
      · obtain rfl := List.mem_singleton.mp hmem
        exact ⟨hempty, Or.inl (hc.current hempty)⟩
  · have hnone : c.current = "" := not_not.mp hempty
    refine ⟨?_, hc.chunks⟩
    rw [← hc.content, hnone]
    simp [visible]

theorem Chunks.Sound.push {c c' : Chunks} {done : List String} {word : String} (hc : c.Sound maxTokens estimator done)
    (h : c.push maxTokens estimator word = .ok c') : c'.Sound maxTokens estimator (done ++ [word]) := by
  obtain ⟨hclosed, hbounded⟩ := hc.closed
  unfold Chunks.push at h
  obtain ⟨tokens, htokens, h1⟩ := of_bind_ok h
  have hcandidate : visible (if c.current = "" then word else c.current ++ " " ++ word)
      = visible c.current ++ visible word := by
    split_ifs with hempty
    · rw [hempty]
      simp [visible]
    · simp
  generalize (if c.current = "" then word else c.current ++ " " ++ word) = candidate at hcandidate htokens h1
  split_ifs at h1 with hfits
  -- The word still fits into the current chunk.
  · cases h1
    refine ⟨?_, hc.chunks, fun _ => ⟨tokens, htokens, hfits⟩⟩
    rw [hcandidate, ← List.append_assoc, hc.content]
    simp
  · obtain ⟨tokens', htokens', h2⟩ := of_bind_ok h1
    split_ifs at h2 with hword
    -- It begins another chunk.
    · cases h2
      refine ⟨?_, hbounded, fun _ => ⟨tokens', htokens', hword⟩⟩
      rw [hclosed]
      simp
    -- It is cut into parts.
    · obtain ⟨parts, hparts, h3⟩ := of_bind_ok h2
      cases h3
      obtain ⟨hcontent, hsmall⟩ := splitOversizedWord_sound hparts
      refine ⟨?_, ?_, fun hempty => absurd rfl hempty⟩
      · have hvisible : parts.flatMap visible = visible word := by
          rw [visible_flatMap_toList, hcontent]
          rfl
        rw [List.flatMap_append, hclosed, hvisible]
        simp [visible]
      · intro chunk hmem
        rcases List.mem_append.mp hmem with hmem | hmem
        · exact hbounded chunk hmem
        · exact hsmall chunk hmem

end Cutting

section Returning

variable {estimator : TokenEstimator} (hanswers : ∀ text, ∃ tokens, tokenCount text estimator = .ok tokens) (maxTokens : Nat)

include hanswers

theorem WordParts.close_returns (w : WordParts) : ∃ w', w.close maxTokens estimator = .ok w' := by
  obtain ⟨tokens, htokens⟩ := hanswers w.part
  unfold WordParts.close
  rw [htokens, ok_bind]
  split_ifs
  · exact ⟨_, rfl⟩
  · exact ⟨_, rfl⟩

theorem WordParts.push_returns (w : WordParts) (c : Char) : ∃ w', w.push maxTokens estimator c = .ok w' := by
  unfold WordParts.push
  by_cases hempty : w.part = ""
  · rw [if_neg (not_not.mpr hempty)]
    exact WordParts.close_returns hanswers maxTokens _
  · obtain ⟨tokens, htokens⟩ := hanswers (w.part ++ String.singleton c)
    rw [if_pos hempty]
    rw [htokens, ok_bind]
    split_ifs
    · exact WordParts.close_returns hanswers maxTokens _
    · exact WordParts.close_returns hanswers maxTokens _

theorem splitOversizedWord_returns (word : String) : ∃ parts, splitOversizedWord word maxTokens estimator = .ok parts := by
  obtain ⟨w, hw⟩ := foldlM_returns (WordParts.push_returns hanswers maxTokens) word.toList {}
  unfold splitOversizedWord
  rw [hw]
  exact ⟨_, rfl⟩

theorem Chunks.push_returns (c : Chunks) (word : String) : ∃ c', c.push maxTokens estimator word = .ok c' := by
  unfold Chunks.push
  obtain ⟨tokens, htokens⟩ := hanswers (if c.current = "" then word else c.current ++ " " ++ word)
  dsimp only
  rw [htokens, ok_bind]
  generalize (if c.current = "" then word else c.current ++ " " ++ word) = candidate
  split_ifs
  · exact ⟨_, rfl⟩
  · obtain ⟨tokens', htokens'⟩ := hanswers word
    rw [htokens', ok_bind]
    split_ifs
    · exact ⟨_, rfl⟩
    · obtain ⟨parts, hparts⟩ := splitOversizedWord_returns hanswers maxTokens word
      rw [hparts]
      exact ⟨_, rfl⟩

end Returning

/-- The chunks of a text show what it shows, none is empty, and each fits or is a single character; and there are chunks
when the estimator answers for every text. -/
theorem chunks_lossless (text : String) (maxTokens : Nat) (estimator : TokenEstimator) :
    (∀ chunks, chunkText text maxTokens estimator = .ok chunks →
      visible (String.join chunks) = visible text ∧ (∀ chunk ∈ chunks, chunk ≠ "") ∧
        ∀ chunk ∈ chunks, (∃ tokens, tokenCount chunk estimator = .ok tokens ∧ tokens ≤ maxTokens) ∨
          chunk.toList.length = 1) ∧
    ((∀ text, ∃ tokens, tokenCount text estimator = .ok tokens) → ∃ chunks, chunkText text maxTokens estimator = .ok chunks) := by
  unfold chunkText
  by_cases hempty : trim text = ""
  · rw [if_pos hempty]
    refine ⟨?_, fun _ => ⟨[], rfl⟩⟩
    intro chunks h
    obtain rfl := Except.ok.inj h
    refine ⟨?_, fun chunk hmem => absurd hmem List.not_mem_nil, fun chunk hmem => absurd hmem List.not_mem_nil⟩
    rw [← visible_trim text, hempty]
    rfl
  · rw [if_neg hempty]
    refine ⟨?_, ?_⟩
    · intro chunks h
      obtain ⟨c, hread, hreturn⟩ := of_bind_ok h
      obtain rfl := Except.ok.inj hreturn
      have hc : c.Sound maxTokens estimator (words (trim text)) := by
        refine of_foldlM_ok (fun done c => c.Sound maxTokens estimator done) ?_ ?_ hread
        · intro done word _ c c' hsound hpush
          exact hsound.push hpush
        · exact ⟨by simp [visible], fun chunk hmem => absurd hmem List.not_mem_nil, fun hempty => absurd rfl hempty⟩
      obtain ⟨hcontent, hbounded⟩ := hc.closed
      refine ⟨?_, fun chunk hmem => (hbounded chunk hmem).nonempty, fun chunk hmem => (hbounded chunk hmem).fits⟩
      rw [visible_join, hcontent, visible_words, visible_trim]
    · intro hanswers
      obtain ⟨c, hc⟩ := foldlM_returns (Chunks.push_returns hanswers maxTokens) (words (trim text)) {}
      rw [hc]
      exact ⟨_, rfl⟩

def characterEstimator : TokenEstimator := fun text => .ok (.finite text.toList.length)

theorem chunks_lossless_abcd : visible (String.join ["a", "bc", "d"]) = visible "a bcd" ∧
    (∀ chunk ∈ ["a", "bc", "d"], chunk ≠ "") ∧
    ∀ chunk ∈ ["a", "bc", "d"], (∃ tokens, tokenCount chunk characterEstimator = .ok tokens ∧ tokens ≤ 2) ∨
      chunk.toList.length = 1 := by
  have h : chunkText "a bcd" 2 characterEstimator = .ok ["a", "bc", "d"] := by decide +kernel
  exact (chunks_lossless "a bcd" 2 characterEstimator).1 ["a", "bc", "d"] h

end Premise.ContextEngine
