import Premise.Control.Except
import Premise.Js.JsonScan
import Premise.RuntimeCore.JournalSpec

/-!
# Proofs: entries and lines

What is written for an entry is read back as that entry; the lines of a file that ends in a torn line.
-/

namespace Premise.RuntimeCore

open Collections Control Js Protocol

variable {dateParses : String → Bool} {entry entry' : RuntimeJournalEntry}

/-- An entry that passes its own checks. -/
structure RuntimeJournalEntry.Sound (dateParses : String → Bool) (entry : RuntimeJournalEntry) :
    Prop where
  wellFormed : entry.toJson.WellFormed
  checked : checkedEntry dateParses entry.toJson = .ok entry

theorem parseText_stringify {value : Json} (h : value.WellFormed) : parseText value.stringify = .ok value := by
  unfold parseText
  rw [parseJson_stringify h]

theorem clone_wellFormed {value : Json} (h : value.WellFormed) : clone value = .ok value :=
  parseText_stringify h

theorem wellFormed_entry {call : JournalCall} (cursor : Nat) : (call.entry cursor).toJson.WellFormed := by
  have hnumber : IsDecimal ((cursor : Nat) : ℚ) := by
    have hint := isDecimal_intCast (cursor : Int)
    rwa [Int.cast_natCast] at hint
  cases call with
  | appendEvent event =>
    exact ⟨by simp, trivial, hnumber, trivial, event.2, trivial⟩
  | appendDecision tenantId decision occurredAt =>
    exact ⟨by simp, trivial, hnumber, trivial, trivial, decision.2, trivial⟩

theorem assertCursor_natCast {n m : Nat} {name : String}
    (h : assertCursor (some (.number (n : ℚ))) name = .ok m) : m = n := by
  unfold assertCursor at h
  dsimp only at h
  split_ifs at h
  rw [Rat.num_natCast, Int.toNat_natCast] at h
  exact (Except.ok.inj h).symm

theorem assertNonEmpty_string {s t name : String} (h : assertNonEmpty (some (.string s)) name = .ok t) : t = s := by
  unfold assertNonEmpty at h
  dsimp only at h
  split_ifs at h
  exact (Except.ok.inj h).symm

theorem assertTimestamp_string {s t name : String}
    (h : assertTimestamp dateParses (some (.string s)) name = .ok t) : t = s := by
  unfold assertTimestamp at h
  dsimp only at h
  split_ifs at h
  exact (Except.ok.inj h).symm

theorem assertDecision_eq {value copy : Json} (h : assertDecision (some value) = .ok copy) : copy = value := by
  unfold assertDecision at h
  dsimp only at h
  split_ifs at h with hobject hreason hreason
  · cases h
  · cases h
  · obtain ⟨_, -, h⟩ := of_bind_ok h
    obtain ⟨_, -, h⟩ := of_bind_ok h
    obtain ⟨_, -, h⟩ := of_bind_ok h
    exact (Except.ok.inj h).symm
  · obtain ⟨_, -, h⟩ := of_bind_ok h
    obtain ⟨_, -, h⟩ := of_bind_ok h
    exact (Except.ok.inj h).symm

theorem checkedEntry_entry {call : JournalCall} {n : Nat}
    (h : checkedEntry dateParses (call.entry n).toJson = .ok entry) : entry = call.entry n := by
  unfold checkedEntry at h
  cases call with
  | appendEvent event =>
    obtain ⟨cursor, hcursor, h⟩ := of_bind_ok h
    obtain ⟨tenantId, htenant, h⟩ := of_bind_ok h
    obtain rfl := assertCursor_natCast hcursor
    obtain rfl := assertNonEmpty_string htenant
    obtain ⟨copy, hcopy, h⟩ := of_bind_ok h
    rw [clone_wellFormed event.2] at hcopy
    cases hcopy
    obtain ⟨parsed, hparsed, h⟩ := of_bind_ok h
    have heq : parsed = event.1 := by
      unfold parseV2Event at hparsed
      split_ifs at hparsed
      · exact (Except.ok.inj hparsed).symm
      · cases hparsed
    subst heq
    split_ifs at h
    · cases h
    · exact (Except.ok.inj h).symm
  | appendDecision tenantId decision occurredAt =>
    obtain ⟨cursor, hcursor, h⟩ := of_bind_ok h
    obtain ⟨tenant, htenant, h⟩ := of_bind_ok h
    obtain rfl := assertCursor_natCast hcursor
    obtain rfl := assertNonEmpty_string htenant
    obtain ⟨time, htime, h⟩ := of_bind_ok h
    obtain ⟨copy, hcopy, h⟩ := of_bind_ok h
    obtain rfl := assertTimestamp_string htime
    obtain rfl := assertDecision_eq hcopy
    exact (Except.ok.inj h).symm

theorem sound_entry {call : JournalCall} {n : Nat}
    (h : checkedEntry dateParses (call.entry n).toJson = .ok entry) :
    (call.entry n).Sound dateParses where
  wellFormed := wellFormed_entry n
  checked := by
    rw [h, checkedEntry_entry h]

theorem toJson_kind (entry : RuntimeJournalEntry) :
    ∃ v fields, entry.toJson = .object (("kind", v) :: fields) := by
  cases entry with
  | event | decision => exact ⟨_, _, rfl⟩

theorem stringify_entry (entry : RuntimeJournalEntry) : ∃ more, entry.toJson.stringify = '{' :: more := by
  obtain ⟨v, fields, heq⟩ := toJson_kind entry
  rw [heq, Json.stringify]
  exact ⟨_, rfl⟩

theorem textBytes_def (entry : RuntimeJournalEntry) : JournalRun.textBytes entry = utf8 entry.toJson.stringify := rfl

theorem lineBytes_eq (entry : RuntimeJournalEntry) : lineBytes entry = JournalRun.textBytes entry ++ [0x0A] := by
  unfold lineBytes
  rw [utf8_append]
  rfl

theorem newline_notMem_textBytes (entry : RuntimeJournalEntry) : 0x0A ∉ JournalRun.textBytes entry := by
  rw [textBytes_def, newline_mem_utf8]
  exact newline_notMem_stringify _

theorem textBytes_ne_nil (entry : RuntimeJournalEntry) : JournalRun.textBytes entry ≠ [] := by
  obtain ⟨more, heq⟩ := stringify_entry entry
  rw [textBytes_def, heq, utf8_cons]
  exact List.append_ne_nil_of_left_ne_nil (utf8Bytes_ne_nil _) _

theorem length_lineBytes (entry : RuntimeJournalEntry) :
    (lineBytes entry).length = (JournalRun.textBytes entry).length + 1 := by
  rw [lineBytes_eq, List.length_append]
  rfl

theorem decode_textBytes (entry : RuntimeJournalEntry) : decode (JournalRun.textBytes entry) = entry.toJson.stringify := by
  obtain ⟨more, heq⟩ := stringify_entry entry
  refine decode_utf8 ?_
  rw [heq]
  intro c hc
  cases hc
  decide

theorem linesFrom_line (offset : Nat) (pending : List Nat) {bytes : List Nat} (h : 0x0A ∉ bytes)
    (rest : List Nat) : linesFrom offset pending (bytes ++ 0x0A :: rest) =
      ⟨decode (pending ++ bytes), true, offset + bytes.length + 1⟩ ::
        linesFrom (offset + bytes.length + 1) [] rest := by
  induction bytes generalizing offset pending with
  | nil =>
    rw [List.nil_append, linesFrom, if_pos rfl, List.append_nil]
    rfl
  | cons b bytes ih =>
    have hb : b ≠ 0x0A := fun heq => h (heq ▸ List.mem_cons_self)
    have hlength : offset + 1 + bytes.length = offset + (b :: bytes).length := by
      rw [List.length_cons]
      omega
    rw [List.cons_append, linesFrom, if_neg hb, ih _ _ (fun hmem => h (List.mem_cons_of_mem _ hmem)),
      List.append_assoc, hlength]
    rfl

theorem linesFrom_tail (offset : Nat) (pending : List Nat) {bytes : List Nat} (h : 0x0A ∉ bytes)
    (hne : pending ++ bytes ≠ []) :
    linesFrom offset pending bytes = [⟨decode (pending ++ bytes), false, offset + bytes.length⟩] := by
  induction bytes generalizing offset pending with
  | nil =>
    rw [List.append_nil] at hne
    rw [linesFrom, if_neg hne, List.append_nil]
    rfl
  | cons b bytes ih =>
    have hb : b ≠ 0x0A := fun heq => h (heq ▸ List.mem_cons_self)
    have hlength : offset + 1 + bytes.length = offset + (b :: bytes).length := by
      rw [List.length_cons]
      omega
    rw [linesFrom, if_neg hb, ih _ _ (fun hmem => h (List.mem_cons_of_mem _ hmem)) (by simp), List.append_assoc, hlength]
    rfl

def fileOf (entries : List RuntimeJournalEntry) : List Nat := entries.flatMap lineBytes

@[simp] theorem fileOf_nil : fileOf [] = [] := rfl

theorem fileOf_append (entries entries' : List RuntimeJournalEntry) :
    fileOf (entries ++ entries') = fileOf entries ++ fileOf entries' := List.flatMap_append

theorem fileOf_singleton (entry : RuntimeJournalEntry) : fileOf [entry] = lineBytes entry :=
  List.append_nil _

theorem linesFrom_entry (offset : Nat) (entry : RuntimeJournalEntry)
    (rest : List Nat) : linesFrom offset [] (lineBytes entry ++ rest) =
      ⟨entry.toJson.stringify, true, offset + (lineBytes entry).length⟩ ::
        linesFrom (offset + (lineBytes entry).length) [] rest := by
  rw [lineBytes_eq, List.append_assoc, List.singleton_append,
    linesFrom_line _ _ (newline_notMem_textBytes entry), List.nil_append, decode_textBytes,
    List.length_append, List.length_singleton, Nat.add_assoc]

/-! ## Torn lines -/

/-- What writes leave that break off in the text of an entry. -/
def tornBytes (pieces : List (RuntimeJournalEntry × Nat)) : List Nat :=
  pieces.flatMap (fun p => (JournalRun.textBytes p.1).take p.2)

theorem textBytes_cons (entry : RuntimeJournalEntry) : ∃ more, JournalRun.textBytes entry = 0x7B :: more := by
  obtain ⟨more, heq⟩ := stringify_entry entry
  rw [textBytes_def, heq, utf8_cons]
  exact ⟨_, rfl⟩

theorem tornBytes_head (pieces : List (RuntimeJournalEntry × Nat)) :
    tornBytes pieces = [] ∨ ∃ more, tornBytes pieces = 0x7B :: more := by
  induction pieces with
  | nil => exact .inl rfl
  | cons p pieces ih =>
    obtain ⟨entry, k⟩ := p
    obtain ⟨more, heq⟩ := textBytes_cons entry
    have hcons : tornBytes ((entry, k) :: pieces)
        = (JournalRun.textBytes entry).take k ++ tornBytes pieces := List.flatMap_cons
    rw [hcons, heq]
    cases k with
    | zero => exact ih
    | succ k => exact .inr ⟨_, rfl⟩

theorem newline_notMem_tornBytes (pieces : List (RuntimeJournalEntry × Nat)) : 0x0A ∉ tornBytes pieces := by
  intro h
  obtain ⟨p, -, hp⟩ := List.mem_flatMap.mp h
  exact newline_notMem_textBytes _ (List.mem_of_mem_take hp)

theorem decode_piece (entry : RuntimeJournalEntry) (k : Nat)
    (pieces : List (RuntimeJournalEntry × Nat)) : ∃ p tail, p <+: entry.toJson.stringify ∧
      decodeBytes none (tornBytes ((entry, k) :: pieces)) = p ++ (tail ++ decodeBytes none (tornBytes pieces)) ∧
      (tail = [] ∨ tail = [replacement]) ∧
      (k < (JournalRun.textBytes entry).length → p.length < entry.toJson.stringify.length) ∧
      (0 < k → p ≠ []) := by
  have hcons : tornBytes ((entry, k) :: pieces)
      = (JournalRun.textBytes entry).take k ++ tornBytes pieces := List.flatMap_cons
  have hsplit : decodeBytes none (tornBytes ((entry, k) :: pieces))
      = decodeBytes none ((JournalRun.textBytes entry).take k) ++ decodeBytes none (tornBytes pieces) := by
    rw [hcons]
    rcases tornBytes_head pieces with hnil | ⟨more, hmore⟩
    · rw [hnil, List.append_nil]
      exact (List.append_nil _).symm
    · rw [hmore]
      exact decodeBytes_ascii none nofun _ (by decide) _
  obtain ⟨p, tail, hp, heq, htail, hlt⟩ := decodeBytes_utf8_take entry.toJson.stringify k
  refine ⟨p, tail, hp, ?_, htail, hlt, ?_⟩
  · rw [hsplit, textBytes_def, heq, List.append_assoc]
  · rintro hk rfl
    obtain ⟨more, hmore⟩ := stringify_entry entry
    obtain ⟨n, rfl⟩ := Nat.exists_eq_succ_of_ne_zero (Nat.pos_iff_ne_zero.mp hk)
    have hbrace : decodeBytes none ((utf8 ('{' :: more)).take (n + 1)) = '{' :: decodeBytes none ((utf8 more).take n) := rfl
    rw [hmore, hbrace, List.nil_append] at heq
    rcases htail with rfl | rfl
    · cases heq
    · exact absurd (List.cons.inj heq).1 (by decide)

theorem unfinished_tornBytes (pieces : List (RuntimeJournalEntry × Nat)) {s : Scan}
    (h : Unfinished s) : Unfinished (s.after (decodeBytes none (tornBytes pieces))) := by
  induction pieces generalizing s with
  | nil => exact h
  | cons piece pieces ih =>
    obtain ⟨entry, k⟩ := piece
    obtain ⟨p, tail, hp, heq, htail, -⟩ := decode_piece entry k pieces
    obtain ⟨v, fields, hjson⟩ := toJson_kind entry
    rw [hjson] at hp
    rw [heq, Scan.after_append, Scan.after_append]
    refine ih ?_
    have hkind : "kind".toList = 'k' :: "ind".toList := by decide
    have hpiece := h.object hkind (by decide) hp
    rcases htail with rfl | rfl
    · exact hpiece
    · exact hpiece.next_plain (by decide)

theorem parse_tornBytes {pieces : List (RuntimeJournalEntry × Nat)}
    (h : ∀ p ∈ pieces, p.2 < (JournalRun.textBytes p.1).length) :
    tornBytes pieces = [] ∨ (decode (tornBytes pieces) ≠ [] ∧
      parseText (decode (tornBytes pieces)) = .error .syntaxError) := by
  induction pieces with
  | nil => exact .inl rfl
  | cons piece pieces ih =>
    obtain ⟨entry, k⟩ := piece
    rcases Nat.eq_zero_or_pos k with rfl | hk
    · exact ih fun p hp => h p (List.mem_cons_of_mem _ hp)
    right
    obtain ⟨p, tail, hp, heq, htail, hlt, hne⟩ := decode_piece entry k pieces
    obtain ⟨v, fields, hjson⟩ := toJson_kind entry
    have hlength := hlt (h _ List.mem_cons_self)
    have hshape : ∃ more, p = '{' :: more := by
      obtain ⟨more, hmore⟩ := stringify_entry entry
      rw [hmore] at hp
      rcases List.prefix_cons_iff.mp hp with rfl | ⟨q, rfl, -⟩
      · exact absurd rfl (hne hk)
      · exact ⟨q, rfl⟩
    have hdecode : decode (tornBytes ((entry, k) :: pieces)) = p ++ (tail ++ decodeBytes none (tornBytes pieces)) := by
      obtain ⟨more, rfl⟩ := hshape
      unfold decode
      rw [heq]
      exact if_neg (by decide)
    rw [hdecode]
    refine ⟨List.append_ne_nil_of_left_ne_nil (hne hk) _, ?_⟩
    unfold parseText
    rw [hjson] at hp hlength
    rw [parseJson_torn hp (hne hk) hlength]
    intro s hs
    rw [Scan.after_append]
    refine unfinished_tornBytes pieces ?_
    rcases htail with rfl | rfl
    · exact hs
    · exact hs.next_plain (by decide)

end Premise.RuntimeCore
