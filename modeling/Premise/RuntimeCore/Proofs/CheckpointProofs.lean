import Premise.Control.Except
import Premise.Js.KeyOrder
import Premise.RuntimeCore.Checkpoint

/-!
# Checkpoints are read back and recovered from

A checkpoint that was made is read back from its text, and a recovery is ready exactly when the digest is that of
the content and the tail goes on where the checkpoint ends.
-/

namespace Premise.RuntimeCore.Checkpoint

open Control Js

variable {sha256 : String → String} {dateParse : String → Option Int}

variable {key : String} {properties : List (String × Json)} {value : Json}

theorem field_withoutDigest (hkey : key ≠ "digest") (value : Json) :
    (withoutDigest value).field key = value.field key := by
  cases value with
  | object properties =>
    unfold withoutDigest Json.field
    dsimp only
    rw [List.find?_filter]
    congr 2
    funext p
    by_cases hp : p.1 = key
    · simp [hp, hkey]
    · simp [hp]
  | _ => rfl

theorem digest_notMem_filter (properties : List (String × Json)) :
    "digest" ∉ (properties.filter (fun p => p.1 ≠ "digest")).map Prod.fst := by
  simp

theorem withDigest_object (h : "digest" ∉ properties.map Prod.fst) (digest : String) :
    withDigest (.object properties) digest = .object (properties ++ [("digest", .string digest)]) := by
  unfold withDigest setField
  dsimp only
  rw [if_neg h]

theorem field_append :
    (Json.object (properties ++ [(key, value)])).field key = ((Json.object properties).field key).or (some value) := by
  unfold Json.field
  dsimp only
  rw [List.find?_append]
  cases properties.find? (fun p => p.1 == key) with
  | none => simp
  | some p => rfl

theorem field_append_of_ne {key' : String} (hkey : key ≠ key') (value : Json) :
    (Json.object (properties ++ [(key, value)])).field key' = (Json.object properties).field key' := by
  simp [Json.field, List.find?_append, hkey]

theorem field_eq_none (h : key ∉ properties.map Prod.fst) : (Json.object properties).field key = none := by
  unfold Json.field
  rw [Option.map_eq_none_iff, List.find?_eq_none]
  intro p hp hkey
  exact h (List.mem_map.mpr ⟨p, hp, eq_of_beq hkey⟩)

theorem withoutDigest_append (h : "digest" ∉ properties.map Prod.fst) (value : Json) :
    withoutDigest (.object (properties ++ [("digest", value)])) = .object properties := by
  have hkeep : properties.filter (fun p => p.1 ≠ "digest") = properties := by
    rw [List.filter_eq_self]
    intro p hp
    exact decide_eq_true fun hdigest => h (List.mem_map.mpr ⟨p, hp, hdigest⟩)
  unfold withoutDigest
  dsimp only
  rw [List.filter_append, hkeep]
  simp

theorem checkedInput_ok {checked : Json} (h : checkedInput dateParse value = .ok checked) :
    checked = value ∧ (∃ properties, value = .object properties) ∧
      ∃ cursor, numberField "eventCursor" value = some cursor ∧ isCounter cursor = true := by
  unfold checkedInput at h
  obtain ⟨hobject, h⟩ := of_check_ok h
  obtain ⟨hformat, h⟩ := of_check_ok h
  obtain ⟨_, -, h⟩ := of_bind_ok h
  obtain ⟨_, -, h⟩ := of_bind_ok h
  obtain ⟨_, hcursor, h⟩ := of_bind_ok h
  obtain ⟨_, -, h⟩ := of_bind_ok h
  obtain ⟨_, -, h⟩ := of_bind_ok h
  obtain ⟨_, -, h⟩ := of_bind_ok h
  obtain ⟨_, -, h⟩ := of_bind_ok h
  obtain ⟨_, -, h⟩ := of_bind_ok h
  obtain ⟨_, -, h⟩ := of_bind_ok h
  obtain ⟨_, -, h⟩ := of_bind_ok h
  refine ⟨(Except.ok.inj h).symm, ?_, ?_⟩
  · cases value with
    | object properties => exact ⟨properties, rfl⟩
    | array items => exact absurd (.inl nofun) hformat
    | _ => exact absurd rfl hobject
  · unfold assertCounter at hcursor
    split_ifs at hcursor with hany
    exact (Option.any_eq_true _ _).mp hany

theorem create_ok {input : RuntimeOperationalCheckpointInput} {checkpoint : Json}
    (h : createRuntimeCheckpoint sha256 dateParse input = .ok checkpoint) :
    checkedInput dateParse input.document = .ok input.document ∧
      checkpoint = .object (input.properties ++ [("digest", .string (digestInput sha256 input.document))]) := by
  unfold createRuntimeCheckpoint at h
  obtain ⟨checked, hchecked, h⟩ := of_bind_ok h
  obtain ⟨rfl, -⟩ := checkedInput_ok hchecked
  refine ⟨hchecked, ?_⟩
  rw [← Except.ok.inj h]
  exact withDigest_object input.noDigest _

theorem isCheckpoint_of_create {input : RuntimeOperationalCheckpointInput} {checkpoint : Json}
    (h : createRuntimeCheckpoint sha256 dateParse input = .ok checkpoint) :
    IsCheckpoint dateParse checkpoint ∧ DigestMatches sha256 checkpoint := by
  obtain ⟨hchecked, rfl⟩ := create_ok h
  unfold IsCheckpoint DigestMatches
  rw [withoutDigest_append input.noDigest, field_append, field_eq_none input.noDigest]
  exact ⟨hchecked, rfl⟩

theorem parse_eq_ok (hdigest : ∀ text, RuntimeOperationalCheckpoint.isSha256 ("sha256:" ++ sha256 text) = true)
    {checkpoint : Json} : parseRuntimeCheckpoint sha256 dateParse value = .ok checkpoint ↔
      IsCheckpoint dateParse value ∧ DigestMatches sha256 value ∧
        checkpoint = withDigest (withoutDigest value) (digestInput sha256 (withoutDigest value)) := by
  constructor
  · intro h
    unfold parseRuntimeCheckpoint at h
    obtain ⟨-, h⟩ := of_check_ok h
    unfold IsCheckpoint DigestMatches
    split at h
    · next digest hfield =>
      obtain ⟨-, h⟩ := of_check_ok h
      obtain ⟨checked, hchecked, h⟩ := of_bind_ok h
      obtain ⟨rfl, -⟩ := checkedInput_ok hchecked
      obtain ⟨hmatch, h⟩ := of_check_ok h
      obtain rfl : digestInput sha256 (withoutDigest value) = digest := not_not.mp hmatch
      exact ⟨hchecked, hfield, (Except.ok.inj h).symm⟩
    · cases h
  · rintro ⟨hcheckpoint, hmatch, rfl⟩
    obtain ⟨-, ⟨properties, hobject⟩, -⟩ := checkedInput_ok hcheckpoint
    have hvalue : isObject value = true := by
      cases value with
      | object | array => rfl
      | _ => cases hobject
    unfold DigestMatches at hmatch
    unfold parseRuntimeCheckpoint
    rw [if_neg (by rw [hvalue]; decide), hmatch]
    dsimp only
    rw [if_neg (by rw [digestInput, hdigest]; decide), hcheckpoint, ok_bind, if_neg (not_not_intro rfl)]
    rfl

theorem isCounter_natCast (n : ℕ) : isCounter (n : ℚ) = true ↔ (n : ℚ) ≤ maxSafeInteger := by
  have hcast : (n : ℚ) ≤ ((maxSafeInteger : ℤ) : ℚ) ↔ (n : ℤ) ≤ maxSafeInteger := by
    rw [← Int.cast_natCast, Int.cast_le]
  rw [hcast]
  unfold isCounter isSafeInteger maxSafeInteger
  simp

theorem exists_natCast_of_isCounter {cursor : ℚ} (h : isCounter cursor = true) : ∃ n : ℕ, cursor = n := by
  obtain ⟨hden, -, hnum⟩ := of_decide_eq_true h
  refine ⟨cursor.num.toNat, ?_⟩
  rw [← Int.cast_natCast, Int.toNat_of_nonneg hnum]
  exact (Rat.coe_int_num_of_den_eq_one hden).symm

theorem followTail_ok (n : ℕ) (tail : List Json) : (∃ finalCursor, followTail n tail = .ok finalCursor) ↔
    tail.map (numberField "cursor") = (List.range tail.length).map (fun (i : ℕ) => some ((n : ℚ) + i)) ∧ SafeCursors tail := by
  induction tail generalizing n with
  | nil => exact iff_of_true ⟨_, rfl⟩ ⟨rfl, nofun⟩
  | cons entry rest ih =>
    have hrange : (List.range (entry :: rest).length).map (fun (i : ℕ) => some ((n : ℚ) + i))
        = some (n : ℚ) :: (List.range rest.length).map (fun (i : ℕ) => some (((n + 1 : ℕ) : ℚ) + i)) := by
      rw [List.length_cons, List.range_succ_eq_map, List.map_cons, List.map_map]
      congr 1
      · simp
      · apply List.map_congr_left
        intro i _
        simp only [Function.comp_apply, Nat.cast_add, Nat.cast_one, Option.some.injEq]
        push_cast
        ring
    have hsafe : SafeCursors (entry :: rest) ↔ (∀ cursor ∈ numberField "cursor" entry, cursor ≤ maxSafeInteger)
        ∧ SafeCursors rest := List.forall_mem_cons
    rw [hrange, List.map_cons, List.cons.injEq, hsafe]
    unfold followTail
    cases hcursor : numberField "cursor" entry with
    | none =>
      refine iff_of_false ?_ ?_
      · rintro ⟨_, h⟩
        cases h
      · rintro ⟨⟨h, -⟩, -⟩
        cases h
    | some cursor =>
      dsimp only
      rw [Option.some.injEq]
      by_cases hequal : cursor = n
      · subst hequal
        by_cases hcounter : isCounter (n : ℚ) = true
        · rw [if_neg (by rw [hcounter]; decide), if_neg (lt_irrefl _), if_neg (lt_irrefl _)]
          have hbound := (isCounter_natCast n).mp hcounter
          have hnext : ((n : ℚ) + 1) = ((n + 1 : ℕ) : ℚ) := by push_cast; rfl
          rw [hnext, ih (n + 1)]
          constructor
          · rintro ⟨hcursors, hrest⟩
            refine ⟨⟨rfl, hcursors⟩, fun cursor hmem => ?_, hrest⟩
            cases hmem
            exact hbound
          · rintro ⟨⟨-, hcursors⟩, -, hrest⟩
            exact ⟨hcursors, hrest⟩
        · rw [if_pos (Bool.not_eq_true _ ▸ hcounter)]
          refine iff_of_false ?_ ?_
          · rintro ⟨_, h⟩
            cases h
          · rintro ⟨-, hbound, -⟩
            exact hcounter ((isCounter_natCast n).mpr (hbound _ rfl))
      · refine iff_of_false ?_ fun h => hequal h.1.1
        rintro ⟨finalCursor, h⟩
        split_ifs at h with hcounter hbefore hafter
        exact hequal (le_antisymm (not_lt.mp hafter) (not_lt.mp hbefore))

theorem numberField_congr {value' : Json} (h : value.field key = value'.field key) :
    numberField key value = numberField key value' := by
  unfold numberField
  rw [h]

theorem eventCursor_parsed (hcheckpoint : IsCheckpoint dateParse value) (digest : String) :
    eventCursor (withDigest (withoutDigest value) digest) = eventCursor value ∧ ∃ n : ℕ, eventCursor value = n := by
  obtain ⟨-, ⟨properties, hobject⟩, cursor, hcursor, hcounter⟩ := checkedInput_ok hcheckpoint
  have hfield : ∀ key, key ≠ "digest" → (withDigest (withoutDigest value) digest).field key = value.field key := by
    intro key hkey
    cases value with
    | object fields =>
      have hnone := digest_notMem_filter fields
      rw [← field_withoutDigest hkey (.object fields), withoutDigest, withDigest_object hnone,
        field_append_of_ne (Ne.symm hkey)]
    | _ => cases hobject
  have hsame := numberField_congr (hfield "eventCursor" (by decide))
  have hcontent : numberField "eventCursor" (withoutDigest value) = numberField "eventCursor" value :=
    numberField_congr (field_withoutDigest (by decide) value)
  obtain ⟨n, rfl⟩ := exists_natCast_of_isCounter hcounter
  unfold eventCursor
  rw [hsame, ← hcontent, hcursor]
  exact ⟨rfl, n, rfl⟩

theorem ready_iff (hdigest : ∀ text, RuntimeOperationalCheckpoint.isSha256 ("sha256:" ++ sha256 text) = true)
    (value : Json) (tail : List Json) : Ready sha256 dateParse value tail ↔
      IsCheckpoint dateParse value ∧ DigestMatches sha256 value ∧ Contiguous (eventCursor value) tail ∧ SafeCursors tail := by
  unfold Ready verifyRuntimeCheckpointRecovery
  cases hparse : parseRuntimeCheckpoint sha256 dateParse value with
  | error e =>
    refine iff_of_false ?_ ?_
    · rintro ⟨_, _, h⟩
      cases h
    · rintro ⟨hcheckpoint, hmatch, -⟩
      rw [(parse_eq_ok hdigest).mpr ⟨hcheckpoint, hmatch, rfl⟩] at hparse
      cases hparse
  | ok checked =>
    obtain ⟨hcheckpoint, hmatch, rfl⟩ := (parse_eq_ok hdigest).mp hparse
    obtain ⟨hcursor, n, hn⟩ := eventCursor_parsed hcheckpoint (digestInput sha256 (withoutDigest value))
    have hfollow := followTail_ok (n + 1) tail
    have hexpected : eventCursor value + 1 = ((n + 1 : ℕ) : ℚ) := by rw [hn]; push_cast; rfl
    unfold Contiguous
    dsimp only
    rw [hcursor, hexpected, ← hfollow]
    constructor
    · rintro ⟨_, finalCursor, h⟩
      refine ⟨hcheckpoint, hmatch, ?_⟩
      cases hrun : followTail ((n + 1 : ℕ) : ℚ) tail with
      | ok cursor => exact ⟨cursor, rfl⟩
      | error reason =>
        rw [hrun] at h
        cases h
    · rintro ⟨-, -, cursor, hrun⟩
      rw [hrun]
      exact ⟨_, _, rfl⟩

theorem recovers (hdigest : ∀ text, RuntimeOperationalCheckpoint.isSha256 ("sha256:" ++ sha256 text) = true) :
    Recovers sha256 dateParse where
  round_trip := by
    intro input checkpoint h
    have hkeys := input.noDigest
    obtain ⟨hcheckpoint, hmatch⟩ := isCheckpoint_of_create h
    obtain ⟨-, rfl⟩ := create_ok h
    refine ⟨_, parseJson_stringify ?_, (parse_eq_ok hdigest).mpr ⟨hcheckpoint, hmatch, ?_⟩⟩
    · obtain ⟨hnodup, hfields⟩ := input.wellFormed
      rw [Json.wellFormedFields_iff] at hfields
      rw [Json.WellFormed, Json.wellFormedFields_iff, List.map_append]
      refine ⟨List.nodup_append.mpr ⟨hnodup, List.nodup_singleton _, ?_⟩, ?_⟩
      · rintro key hkey key' hkey' rfl
        rw [List.map_singleton, List.mem_singleton] at hkey'
        obtain rfl : key = "digest" := hkey'
        exact hkeys hkey
      · intro p hp
        rcases List.mem_append.mp hp with hp | hp
        · exact hfields p hp
        · obtain rfl := List.mem_singleton.mp hp
          trivial
    · rw [withoutDigest_append hkeys, withDigest_object hkeys]
      rfl
  made := fun _ _ h => isCheckpoint_of_create h
  ready := ready_iff hdigest

def inputAt (cursor : ℕ) : RuntimeOperationalCheckpointInput where
  properties := [("format", .string "premise-runtime-checkpoint"), ("version", .number 1),
    ("capturedAt", .string "2026-01-01T00:00:00.000Z"), ("activeRecords", .array []), ("frontierState", .null),
    ("incarnations", .object []), ("eventCursor", .number cursor), ("receiptEpoch", .number 0),
    ("idempotencyState", .array []), ("sourceVersions", .object []), ("dependencyState", .object [])]
  wellFormed := by
    have hcursor := isDecimal_intCast (cursor : ℤ)
    rw [Int.cast_natCast] at hcursor
    have hnumbers : IsDecimal 1 ∧ IsDecimal (cursor : ℚ) ∧ IsDecimal 0 := ⟨by decide, hcursor, by decide⟩
    simpa [Json.WellFormed, Json.WellFormedFields, Json.WellFormedItems] using hnumbers
  noDigest := by simp

/-- The digest of the checkpoint at the last safe integer, and of the one at 4. -/
def digestOf (cursor : ℕ) : String :=
  if cursor = 4 then "4779661c367230f16a77a44ee4f7d74971bad2cffdbdc23bd07dd344600200c9"
  else "3ed08da35ca849e6311234c737a3b4f723828eace8784dab055dcbb2a08e45a2"

def entryAt (cursor : ℕ) : Json := .object [("cursor", .number cursor)]

theorem isSha256_digestOf (cursor : ℕ) : RuntimeOperationalCheckpoint.isSha256 ("sha256:" ++ digestOf cursor) = true := by
  unfold digestOf
  split_ifs
  · decide +kernel
  · decide +kernel

def checkpointAt (cursor : ℕ) : Json :=
  .object ((inputAt cursor).properties ++ [("digest", .string ("sha256:" ++ digestOf cursor))])

def dateOf (_ : String) : Option Int := some 1767225600000

theorem create_inputAt (cursor : ℕ) (h : cursor ∈ [4, 9007199254740991]) :
    createRuntimeCheckpoint (fun _ => digestOf cursor) dateOf (inputAt cursor) = .ok (checkpointAt cursor) := by
  rcases List.mem_pair.mp h with rfl | rfl
  · rfl
  · rfl

/-- After the last safe integer, a tail that goes on is not ready. -/
theorem last_cursor_not_ready : ¬ ∀ (sha256 : String → String) (dateParse : String → Option Int),
    (∀ text, RuntimeOperationalCheckpoint.isSha256 ("sha256:" ++ sha256 text) = true) →
    ∀ input checkpoint, createRuntimeCheckpoint sha256 dateParse input = .ok checkpoint → ∀ tail,
      (Ready sha256 dateParse checkpoint tail ↔
        DigestMatches sha256 checkpoint ∧ Contiguous (eventCursor checkpoint) tail) := by
  intro h
  have hmade := create_inputAt 9007199254740991 (by decide)
  have hready := h _ _ (fun _ => isSha256_digestOf _) _ _ hmade [entryAt 9007199254740992]
  obtain ⟨-, -, -, hsafe⟩ := (ready_iff (fun _ => isSha256_digestOf _) _ _).mp
    (hready.mpr ⟨(isCheckpoint_of_create hmade).2, by decide +kernel⟩)
  exact absurd (hsafe _ List.mem_cons_self _ rfl) (by decide +kernel)

theorem recovers_from_four : (∃ value, parseJson (checkpointAt 4).stringify = some value ∧
      parseRuntimeCheckpoint (fun _ => digestOf 4) dateOf value = .ok (checkpointAt 4)) ∧
    Ready (fun _ => digestOf 4) dateOf (checkpointAt 4) [entryAt 5, entryAt 6] ∧
    ¬ Ready (fun _ => digestOf 4) dateOf (checkpointAt 4) [entryAt 5, entryAt 5] := by
  have hrecovers : Recovers (fun _ => digestOf 4) dateOf := recovers (fun _ => isSha256_digestOf 4)
  have hmade := create_inputAt 4 (by decide)
  obtain ⟨hcheckpoint, hmatch⟩ := hrecovers.made _ _ hmade
  refine ⟨hrecovers.round_trip _ _ hmade, (hrecovers.ready _ _).mpr ⟨hcheckpoint, hmatch, by decide +kernel, ?_⟩, ?_⟩
  · intro entry hentry cursor hcursor
    rcases List.mem_pair.mp hentry with rfl | rfl
    · obtain rfl := Option.some.inj hcursor
      decide +kernel
    · obtain rfl := Option.some.inj hcursor
      decide +kernel
  · intro hready
    exact absurd ((hrecovers.ready _ _).mp hready).2.2.1 (by decide +kernel)

end Premise.RuntimeCore.Checkpoint
