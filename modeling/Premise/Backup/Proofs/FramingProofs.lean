import Premise.Backup.Stream
import Premise.Collections.Lines
import Premise.Control.Except

/-!
# Proofs: the lines of a backup

The canonical text of a value is the text of its sorted document. What is read of it is the value in key
order, but for the infinities, which are written as `null`.
-/

namespace Premise.Backup

open Collections Js

mutual

theorem canonicalJson_eq (v : Parsed) : canonicalJson v = v.json.sorted.stringify :=
  match v with
  | .null | .boolean _ | .number .nan | .number (.infinity _) | .number (.finite _) | .string _ => rfl
  | .array items => by
    rw [canonicalJson, Parsed.json, Json.sorted, Json.stringify, Json.joinItems_eq, canonicalItems_eq items]
  | .object fields => by
    rw [canonicalJson, Parsed.json, Json.sorted, Json.stringify, Json.joinFields_eq, canonicalFields_eq fields,
      sortByKey_map, List.map_map]
    rfl

theorem canonicalItems_eq (items : List Parsed) :
    canonicalItems items = (Json.sortedItems (Parsed.jsonItems items)).map Json.stringify :=
  match items with
  | [] => rfl
  | v :: items => by
    rw [canonicalItems, Parsed.jsonItems, Json.sortedItems, List.map_cons, canonicalJson_eq v, canonicalItems_eq items]

theorem canonicalFields_eq (fields : List (String × Parsed)) : canonicalFields fields
      = (Json.sortedFields (Parsed.jsonFields fields)).map (fun p => (p.1, p.2.stringify)) :=
  match fields with
  | [] => rfl
  | (k, v) :: fields => by
    rw [canonicalFields, Parsed.jsonFields, Json.sortedFields, List.map_cons, canonicalJson_eq v, canonicalFields_eq fields]

end

theorem canonicalJson_congr {v w : Parsed} (h : v.Same w) : canonicalJson v = canonicalJson w := by
  rw [canonicalJson_eq, canonicalJson_eq, (Parsed.same_iff.mp h).1]

theorem parse_canonicalJson {v : Parsed} (hv : v.json.WellFormed) :
    parse (canonicalJson v) = some v.json.sorted.parsed := by
  rw [canonicalJson_eq, parse, parseJson_stringify (Json.wellFormed_sorted hv)]
  rfl

theorem parse_canonicalJson_finite {v : Parsed} (hv : v.WellFormed) (hfinite : v.Finite) :
    parse (canonicalJson v) = some v.sorted := by
  rw [parse_canonicalJson (Parsed.wellFormed_json hv), Parsed.parsed_sorted, Parsed.parsed_json hv hfinite]

theorem same_of_canonicalJson {v w : Parsed} (hv : v.json.WellFormed) (hw : w.json.WellFormed)
    (h : canonicalJson v = canonicalJson w) : v.json.Same w.json := by
  rw [canonicalJson_eq, canonicalJson_eq] at h
  exact Json.same_of_stringify_sorted hv hw h

theorem control_notMem_canonicalJson {x : Char} (hx : x.toNat < 32) (v : Parsed) : x ∉ canonicalJson v := by
  rw [canonicalJson_eq]
  exact control_notMem_stringify hx _

variable {kind : EntryKind} {value : Parsed} {sequence : Option Nat}

theorem wellFormed_natural {n : Nat} (h : n < 2 ^ 53) : (natural n).WellFormed := toDouble_natCast h

theorem sorted_entryObject : (entryObject kind value sequence).sorted
    = .object ([("kind", .string kind.text)] ++ sequence.toList.map (fun n => ("sequence", natural n))
      ++ [("value", value.sorted)]) := by
  have hkv : UnitsLe "kind" "value" := by decide
  have hks : UnitsLe "kind" "sequence" := by decide
  have hvs : ¬ UnitsLe "value" "sequence" := by decide
  cases sequence <;>
    simp [entryObject, natural, Parsed.sorted, Parsed.sortedFields, JsValue.sortByKey, List.insertionSort,
      List.orderedInsert, hkv, hks, hvs]

theorem wellFormed_entryObject (hvalue : value.WellFormed) (hsequence : ∀ n ∈ sequence, n < 2 ^ 53) :
    (entryObject kind value sequence).WellFormed := by
  cases sequence with
  | none => exact ⟨by simp, trivial, hvalue, trivial⟩
  | some n => exact ⟨by simp, trivial, hvalue, wellFormed_natural (hsequence n rfl), trivial⟩

theorem wellFormed_entryObject_json (kind : EntryKind) (sequence : Option Nat) (hvalue : value.json.WellFormed) :
    (entryObject kind value sequence).json.WellFormed := by
  cases sequence with
  | none => exact ⟨by simp [Parsed.jsonFields], trivial, hvalue, trivial⟩
  | some n => exact ⟨by simp [Parsed.jsonFields], trivial, hvalue, isDecimal_intCast n, trivial⟩

theorem finite_entryObject (hvalue : value.Finite) : (entryObject kind value sequence).Finite := by
  cases sequence <;>
    simpa [Parsed.Finite, entryObject, natural, Parsed.nulls, Parsed.nullsFields] using hvalue

theorem entryObject_same {kind' : EntryKind} {value' : Parsed} {sequence' : Option Nat}
    (h : (entryObject kind value sequence).json.Same (entryObject kind' value' sequence').json) :
    kind = kind' ∧ sequence = sequence' ∧ value.json.Same value'.json := by
  have htext : ∀ k k' : EntryKind, k.text = k'.text → k = k' := by
    intro k k' hk
    cases k <;> cases k' <;> first | rfl | exact absurd hk (by decide)
  unfold Json.Same at h ⊢
  rw [← Parsed.json_sorted, ← Parsed.json_sorted, sorted_entryObject, sorted_entryObject] at h
  rw [← Parsed.json_sorted, ← Parsed.json_sorted]
  cases sequence <;> cases sequence' <;>
    simp [Parsed.json, Parsed.jsonFields, natural] at h
  · exact ⟨htext _ _ h.1, rfl, h.2⟩
  · exact ⟨htext _ _ h.1, by rw [h.2.1], h.2.2⟩

theorem same_entryObject {value' : Parsed} (h : value.Same value') :
    (entryObject kind value sequence).Same (entryObject kind value' sequence) := by
  unfold Parsed.Same at h ⊢
  rw [sorted_entryObject, sorted_entryObject, h]

theorem dataLine_eq : dataLine kind value sequence = canonicalJson (entryObject kind value sequence) ++ ['\n'] := rfl

theorem trimEnd_dataLine : trimEnd (dataLine kind value sequence) = canonicalJson (entryObject kind value sequence) := by
  have hend : ∃ text, canonicalJson (entryObject kind value sequence) = text ++ ['}'] := by
    unfold entryObject
    rw [canonicalJson]
    exact ⟨_, (List.cons_append).symm⟩
  obtain ⟨text, htext⟩ := hend
  have hnewline : isWhitespace '\n' = true := by decide
  have hbrace : isWhitespace '}' = false := by decide
  unfold trimEnd dataLine
  rw [htext]
  simp [hnewline, hbrace]

/-!
# Proofs: framing

Lines without line ends inside them are read as they were written. A line with a line end inside is cut
there, and its first part is no document.
-/

open Control

def Clean (line : List Char) : Prop := ∀ c ∈ line, isLineEnd c = false

theorem isLineEnd_return : isLineEnd '\r' = true := rfl

variable {rest : List Char} {c : Char} {lines : List (List Char)}

theorem cutLine_clean {line : List Char} (hline : Clean line) (hc : isLineEnd c = true) (hreturn : c ≠ '\r') :
    cutLine (line ++ c :: rest) = (line, some rest) := by
  induction line with
  | nil =>
    rw [List.nil_append]
    unfold cutLine
    split
    · rename_i heq
      cases heq
    · rename_i heq
      exact absurd (List.cons.inj heq).1 hreturn
    · rename_i heq
      obtain ⟨rfl, rfl⟩ := List.cons.inj heq
      rw [if_pos hc]
  | cons d line ih =>
    have hd : isLineEnd d = false := hline d List.mem_cons_self
    rw [List.cons_append]
    unfold cutLine
    split
    · rename_i heq
      cases heq
    · rename_i heq
      rw [(List.cons.inj heq).1, isLineEnd_return] at hd
      cases hd
    · rename_i heq
      obtain ⟨rfl, rfl⟩ := List.cons.inj heq
      rw [hd, ih (fun x hx => hline x (List.mem_cons_of_mem _ hx))]
      rfl

theorem fileLines_line {fuel : Nat} {line : List Char} (hline : Clean line) (hc : isLineEnd c = true)
    (hreturn : c ≠ '\r') :
    fileLines (fuel + 1) (line ++ c :: rest) = line :: fileLines fuel rest := by
  rw [fileLines, cutLine_clean hline hc hreturn]

theorem fileLines_unlines {fuel : Nat} (hlines : ∀ line ∈ lines, Clean line) :
    fileLines (lines.length + fuel) (unlines '\n' lines ++ rest) = lines ++ fileLines fuel rest := by
  induction lines with
  | nil => simp
  | cons line lines ih =>
    rw [unlines_cons, List.append_assoc, List.cons_append, List.length_cons,
      show lines.length + 1 + fuel = lines.length + fuel + 1 by omega,
      fileLines_line (hlines line List.mem_cons_self) rfl (by decide),
      ih (fun l hl => hlines l (List.mem_cons_of_mem _ hl)), List.cons_append]

theorem length_le_unlines (lines : List (List Char)) : lines.length ≤ (unlines '\n' lines).length := by
  induction lines with
  | nil => exact Nat.zero_le _
  | cons line lines ih =>
    rw [unlines_cons]
    simp only [List.length_cons, List.length_append]
    omega

theorem readLines_unlines (hlines : ∀ line ∈ lines, Clean line) : readLines (unlines '\n' lines) = lines := by
  have hlength := length_le_unlines lines
  obtain ⟨fuel, hfuel⟩ : ∃ fuel, (unlines '\n' lines).length + 1 = lines.length + (fuel + 1) :=
    ⟨(unlines '\n' lines).length - lines.length, by omega⟩
  have hread : fileLines (lines.length + (fuel + 1)) (unlines '\n' lines ++ []) = lines ++ fileLines (fuel + 1) [] :=
    fileLines_unlines hlines
  rw [List.append_nil] at hread
  unfold readLines
  rw [hfuel, hread]
  simp [fileLines, cutLine]

theorem mem_readLines_torn {before : List Char} (hlines : ∀ line ∈ lines, Clean line) (hbefore : Clean before)
    (hc : isLineEnd c = true) (hreturn : c ≠ '\r') :
    before ∈ readLines (unlines '\n' lines ++ (before ++ c :: rest)) := by
  have hlength := length_le_unlines lines
  obtain ⟨fuel, hfuel⟩ : ∃ fuel, (unlines '\n' lines ++ (before ++ c :: rest)).length + 1 = lines.length + (fuel + 1) :=
    ⟨(unlines '\n' lines ++ (before ++ c :: rest)).length - lines.length, by
      simp only [List.length_append]
      omega⟩
  unfold readLines
  rw [hfuel, fileLines_unlines hlines, fileLines_line hbefore hc hreturn]
  exact List.mem_append_right _ List.mem_cons_self

theorem lineEnd_canonicalJson {v : Parsed} (hc : c ∈ canonicalJson v) (hend : isLineEnd c = true) :
    c = '\u2028' ∨ c = '\u2029' := by
  unfold isLineEnd at hend
  simp only [Bool.or_eq_true, decide_eq_true_eq] at hend
  rcases hend with ((rfl | rfl) | rfl) | rfl
  · exact absurd hc (control_notMem_canonicalJson (by decide) v)
  · exact absurd hc (control_notMem_canonicalJson (by decide) v)
  · exact .inl rfl
  · exact .inr rfl

theorem mem_canonicalJson {v : Parsed} (hc : 128 ≤ c.toNat) :
    c ∈ canonicalJson v ↔ ∃ text ∈ v.json.texts, c ∈ text.toList := by
  rw [canonicalJson_eq, Json.mem_stringify hc]
  simp only [(Json.texts_sorted_perm v.json).mem_iff]

theorem clean_canonicalJson {v : Parsed} : Clean (canonicalJson v) ↔ UnbrokenValue v := by
  constructor
  · intro h text htext
    constructor
    · intro hmem
      exact absurd (h _ ((mem_canonicalJson (by decide)).mpr ⟨text, htext, hmem⟩)) (by decide)
    · intro hmem
      exact absurd (h _ ((mem_canonicalJson (by decide)).mpr ⟨text, htext, hmem⟩)) (by decide)
  · intro h c hc
    by_contra hend
    rw [Bool.not_eq_false] at hend
    rcases lineEnd_canonicalJson hc hend with rfl | rfl
    · obtain ⟨text, htext, hmem⟩ := (mem_canonicalJson (by decide)).mp hc
      exact (h text htext).1 hmem
    · obtain ⟨text, htext, hmem⟩ := (mem_canonicalJson (by decide)).mp hc
      exact (h text htext).2 hmem

theorem exists_first_lineEnd {line : List Char} (h : ¬ Clean line) :
    ∃ before c after, line = before ++ c :: after ∧ Clean before ∧ isLineEnd c = true := by
  unfold Clean at h
  push Not at h
  obtain ⟨c, hc, hend⟩ := h
  have hsplit := List.takeWhile_append_dropWhile (p := fun c => !isLineEnd c) (l := line)
  cases hdrop : line.dropWhile (fun c => !isLineEnd c) with
  | nil =>
    rw [hdrop, List.append_nil] at hsplit
    rw [← hsplit] at hc
    exact absurd (List.mem_takeWhile_imp hc) (by simpa using hend)
  | cons d after =>
    have hd := List.head?_dropWhile_not (fun c => !isLineEnd c) line
    rw [hdrop] at hsplit hd
    refine ⟨_, d, after, hsplit.symm, ?_, by simpa using hd⟩
    intro x hx
    simpa using List.mem_takeWhile_imp hx

theorem parse_torn {fields : List (String × Parsed)} {before after : List Char}
    (h : canonicalJson (.object fields) = before ++ c :: after) (hc : isLineEnd c = true) : parse before = none := by
  have heq := canonicalJson_eq (.object fields)
  rw [Parsed.json, Json.sorted] at heq
  rw [heq] at h
  have hprefix : before <+: (Json.object (JsValue.sortByKey (Json.sortedFields (Parsed.jsonFields fields)))).stringify :=
    ⟨c :: after, h.symm⟩
  have hne : before ≠ [] := by
    rintro rfl
    rw [Json.stringify, List.nil_append] at h
    rw [← (List.cons.inj h).1] at hc
    exact absurd hc (by decide)
  have hlength : before.length < (Json.object (JsValue.sortByKey (Json.sortedFields (Parsed.jsonFields fields)))).stringify.length := by
    rw [h, List.length_append, List.length_cons]
    omega
  have htorn : parseJson (before ++ []) = none := parseJson_torn hprefix hne hlength (fun s hs => hs)
  rw [List.append_nil] at htorn
  rw [parse, htorn]
  rfl

end Premise.Backup
