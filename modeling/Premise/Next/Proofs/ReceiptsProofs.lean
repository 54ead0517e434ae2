import Premise.Control.Except
import Premise.Next.ReceiptsSpec

/-!
# Agreement on receipts

What each implementation answers on plain inputs, case by case, and from it when the answers agree.
-/

namespace Premise.Next

open Collections Control Js Python

variable {T κ : Type} [LinearOrder κ]

variable {text : String} {values : List String} {p : DateParts} {scope : ReceiptScope}

theorem codeUnits_of_ascii (h : ∀ c ∈ text.toList, c.toNat < 128) : codeUnits text = codePoints text := by
  unfold codeUnits codePoints
  generalize text.toList = l at *
  induction l with
  | nil => rfl
  | cons c l ih =>
    have hsmall : c.toNat < 0x10000 := Nat.lt_trans (h c List.mem_cons_self) (by decide)
    have hunits : charUnits c = [c.toNat] := if_pos hsmall
    rw [List.flatMap_cons, List.map_cons, hunits, ih (fun d hd => h d (List.mem_cons_of_mem _ hd))]
    rfl

theorem python_nonEmpty_eq_false (text : String) : Python.nonEmpty text = false ↔ ∀ c ∈ text.toList, c.toNat ∈ spaces := by
  simp [Python.nonEmpty]

theorem checkAscending_iff (name : String) (previous : Option String) (values : List String) :
    checkAscending name previous values = .ok () ↔ (∀ p ∈ previous, ∀ value ∈ values, codeUnits p < codeUnits value)
        ∧ values.Pairwise (fun a b => codeUnits a < codeUnits b) := by
  induction values generalizing previous with
  | nil => exact iff_of_true rfl ⟨fun _ _ _ h => absurd h List.not_mem_nil, List.Pairwise.nil⟩
  | cons value rest ih =>
    unfold checkAscending
    rw [List.pairwise_cons]
    split_ifs with hle
    · refine iff_of_false (by simp) fun h => ?_
      cases previous with
      | none => cases hle
      | some p =>
        rw [Option.any_some, decide_eq_true_eq] at hle
        exact absurd (h.1 p rfl value List.mem_cons_self) (not_lt.mpr hle)
    · rw [ih]
      have hfirst : ∀ p ∈ previous, codeUnits p < codeUnits value := by
        intro p hp
        obtain rfl := hp
        rw [Option.any_some, decide_eq_true_eq] at hle
        exact not_le.mp hle
      constructor
      · rintro ⟨hgreater, hascending⟩
        refine ⟨fun p hp v hv => ?_, hgreater value rfl, hascending⟩
        rcases List.mem_cons.mp hv with rfl | hv
        · exact hfirst p hp
        · exact (hfirst p hp).trans (hgreater value rfl v hv)
      · rintro ⟨-, hgreater, hascending⟩
        refine ⟨fun p hp v hv => ?_, hascending⟩
        rw [← Option.some.inj hp]
        exact hgreater v hv

theorem ascending_units (hvalues : ∀ value ∈ values, PlainText value) :
    values.Pairwise (fun a b => codeUnits a < codeUnits b) ↔ Ascending values := by
  refine List.Pairwise.iff_of_mem fun {a b} ha hb => ?_
  rw [codeUnits_of_ascii (hvalues a ha).ascii, codeUnits_of_ascii (hvalues b hb).ascii]

theorem checkAscending_none (name : String) (hvalues : ∀ value ∈ values, PlainText value) :
    checkAscending name none values = .ok () ↔ Ascending values := by
  rw [checkAscending_iff, ascending_units hvalues]
  exact and_iff_right fun _ h => nomatch h

theorem stringSet_ok (name : String) (h : StringSet values) : stringSet values name = .ok (OrderedSet.ofList values) := by
  have hblank : ¬ (values.any (fun value => !Js.nonEmpty value)) = true := by
    rw [Bool.not_eq_true, List.any_eq_false]
    intro value hvalue
    rw [h.nonBlank value hvalue]
    exact Bool.false_ne_true
  have hascending := (checkAscending_iff name none values).mpr ⟨(fun _ h => nomatch h), h.ascending⟩
  unfold stringSet
  rw [if_neg hblank, hascending]
  rfl

theorem stringSet_plain (hvalues : ∀ value ∈ values, PlainText value) (h : Ascending values) :
    StringSet values := ⟨fun value hvalue => (hvalues value hvalue).nonBlank, (ascending_units hvalues).mpr h⟩

theorem stringSet_error (name : String) (hvalues : ∀ value ∈ values, PlainText value) (h : ¬ Ascending values) :
    ∃ e, stringSet values name = .error e := by
  cases hset : stringSet values name with
  | error e => exact ⟨e, rfl⟩
  | ok set =>
    unfold stringSet at hset
    obtain ⟨-, hrest⟩ := of_check_ok hset
    obtain ⟨⟨⟩, hascending, -⟩ := of_bind_ok hrest
    exact absurd ((checkAscending_none name hvalues).mp hascending) h

theorem eq_sortedSet_iff (values : List String) : values = sortedSet values ↔ Ascending values := by
  constructor
  · intro h
    have hsorted : (sortedSet values).Pairwise PointsLe := List.pairwise_insertionSort _ _
    have hnodup : (sortedSet values).Nodup := (List.perm_insertionSort _ _).nodup_iff.mpr (unique_nodup values)
    rw [← h] at hsorted hnodup
    refine (hsorted.and hnodup).imp fun {a b} hab => ?_
    exact lt_of_le_of_ne (α := List Nat) hab.1 (fun heq => hab.2 (codePoints_injective heq))
  · intro h
    have hnodup : values.Nodup := h.imp (fun {a b} hlt heq => absurd hlt (by rw [heq]; exact lt_irrefl _))
    have hsorted : values.Pairwise PointsLe := h.imp (fun {a b} hlt => le_of_lt (α := List Nat) hlt)
    unfold sortedSet
    rw [unique_of_nodup hnodup, hsorted.insertionSort_eq]

namespace Reference

theorem stringSet_ok (name : String) (hvalues : ∀ value ∈ values, Python.nonEmpty value = true)
    (h : Ascending values) : stringSet values name = .ok values := by
  have hblank : ¬ (values.any (fun value => !Python.nonEmpty value)) = true := by
    rw [Bool.not_eq_true, List.any_eq_false]
    intro value hvalue
    rw [hvalues value hvalue]
    exact Bool.false_ne_true
  unfold stringSet
  rw [if_neg hblank, if_neg (not_not_intro ((eq_sortedSet_iff values).mpr h))]
  rfl

theorem stringSet_error (name : String) (h : ¬ Ascending values ∨ ∃ value ∈ values, Python.nonEmpty value = false) :
    ∃ e, stringSet values name = .error e := by
  cases hset : stringSet values name with
  | error e => exact ⟨e, rfl⟩
  | ok set =>
    unfold stringSet at hset
    obtain ⟨hblank, hrest⟩ := of_check_ok hset
    obtain ⟨hsorted, -⟩ := of_check_ok hrest
    rcases h with h | ⟨value, hvalue, hempty⟩
    · exact absurd ((eq_sortedSet_iff values).mp (not_not.mp hsorted)) h
    · exact absurd (List.any_eq_true.mpr ⟨value, hvalue, by rw [hempty]; rfl⟩) hblank

end Reference

/-! ## Timestamps -/

theorem digitValue_ofNat {d : Nat} (h : d < 10) :
    digitValue (Char.ofNat (48 + d)) = some d ∧ (Char.ofNat (48 + d)).isDigit = true := by
  interval_cases d <;> decide

theorem readDigits_digitChars (n value : Nat) (rest : List Char) :
    readDigits n (digitChars n value ++ rest) = some (value % 10 ^ n, rest) := by
  induction n with
  | zero => simp [readDigits, digitChars, Nat.mod_one]
  | succ n ih =>
    have hdigit := (digitValue_ofNat (Nat.mod_lt (value / 10 ^ n) (by decide : 0 < 10))).1
    rw [digitChars, List.cons_append, readDigits, hdigit, Nat.mod_pow_succ, Nat.add_comm (value % 10 ^ n), Nat.mul_comm]
    dsimp only [bind, Option.bind]
    rw [ih]
    rfl

theorem readDigits_of_lt (n value : Nat) (h : value < 10 ^ n) (rest : List Char) :
    readDigits n (digitChars n value ++ rest) = some (value, rest) := by
  rw [readDigits_digitChars, Nat.mod_eq_of_lt h]

theorem readFraction_digitChars {value : Nat} (h : value ≤ 999) {c : Char} (hc : c.isDigit = false) (rest : List Char) :
    readFraction ('.' :: (digitChars 3 value ++ c :: rest)) = some (value, c :: rest) := by
  have hdigits : ∀ d ∈ digitChars 3 value, d.isDigit = true := by
    intro d hd
    simp only [digitChars, List.mem_cons, List.not_mem_nil, or_false] at hd
    rcases hd with rfl | rfl | rfl
    · exact (digitValue_ofNat (Nat.mod_lt _ (by decide))).2
    · exact (digitValue_ofNat (Nat.mod_lt _ (by decide))).2
    · exact (digitValue_ofNat (Nat.mod_lt _ (by decide))).2
  have htake : (digitChars 3 value ++ c :: rest).takeWhile Char.isDigit = digitChars 3 value := by
    rw [List.takeWhile_append_of_pos hdigits, List.takeWhile_cons_of_neg (by rw [hc]; exact Bool.false_ne_true),
      List.append_nil]
  have hdrop : (digitChars 3 value ++ c :: rest).dropWhile Char.isDigit = c :: rest := by
    rw [List.dropWhile_append_of_pos hdigits, List.dropWhile_cons_of_neg (by rw [hc]; exact Bool.false_ne_true)]
  have hread := readDigits_of_lt 3 value (by omega) []
  rw [List.append_nil] at hread
  have hshape : digitChars 3 value = Char.ofNat (48 + value / 10 ^ 2 % 10) :: digitChars 2 value := rfl
  have hcut : (digitChars 3 value ++ ['0', '0', '0']).take 3 = digitChars 3 value := rfl
  rw [readFraction, htake, hdrop, hshape]
  dsimp only
  rw [← hshape, hcut, hread]
  rfl

theorem UtcTime.day_le (h : UtcTime p) : p.day ≤ 31 := by
  have hday := h.day.2
  unfold daysInMonth at hday
  split_ifs at hday <;> omega

theorem dateParts_dateChars (h : UtcTime p) {suffix : List Char}
    (hsuffix : suffix = ['Z'] ∨ suffix = "+00:00".toList) :
    dateParts (String.ofList (dateChars p ++ suffix)) = some p := by
  obtain ⟨hyear, hmonth, hday, hhour, hminute, hsecond, hmillisecond, hutc⟩ := h
  have hfraction : readFraction ('.' :: (digitChars 3 p.millisecond ++ suffix)) = some (p.millisecond, suffix) := by
    rcases hsuffix with rfl | rfl
    · exact readFraction_digitChars hmillisecond rfl _
    · exact readFraction_digitChars hmillisecond rfl _
  have hoffset : readOffset suffix = some (1, 0, 0) := by
    rcases hsuffix with rfl | rfl
    · rfl
    · decide
  have hday' : p.day < 10 ^ 2 := by
    have hle := UtcTime.day_le ⟨hyear, hmonth, hday, hhour, hminute, hsecond, hmillisecond, hutc⟩
    omega
  unfold dateParts dateChars
  simp only [String.toList_ofList, List.append_assoc, List.cons_append, bind, Option.bind, readChar, if_true,
    readDigits_of_lt 4 p.year (by omega), readDigits_of_lt 2 p.month (by omega),
    readDigits_of_lt 2 p.day hday', readDigits_of_lt 2 p.hour (by omega),
    readDigits_of_lt 2 p.minute (by omega), readDigits_of_lt 2 p.second (by omega),
    hfraction, hoffset]
  rw [← hutc]
  rfl

theorem UtcTime.valid (h : UtcTime p) : p.valid = true := by
  have hday := h.day_le
  obtain ⟨hyear, hmonth, hday', hhour, hminute, hsecond, hmillisecond, hutc⟩ := h
  unfold DateParts.valid
  rw [hutc]
  exact decide_eq_true ⟨hmonth.1, hmonth.2, hday'.1, hday, hminute, hsecond, .inl hhour, by decide, by decide⟩

theorem dateParse_utcText (h : UtcTime p) : dateParse (utcText p) = some p.instant := by
  unfold dateParse utcText
  rw [dateParts_dateChars h (.inl rfl), Option.bind_some, if_pos h.valid]

theorem fromIsoFormat_normalized (h : UtcTime p) :
    fromIsoFormat (Reference.normalized (utcText p)) = if p.year = 0 then none else some p.instant := by
  have hnormalized : Reference.normalized (utcText p) = String.ofList (dateChars p ++ "+00:00".toList) := by
    unfold Reference.normalized utcText
    rw [String.toList_ofList, List.getLast?_concat, if_pos rfl, List.dropLast_concat]
  unfold fromIsoFormat
  rw [hnormalized, dateParts_dateChars h (.inr rfl), Option.bind_some]
  have hvalid : validDatetime p = true ↔ p.year ≠ 0 := by
    obtain ⟨hyear, hmonth, hday, hhour, hminute, hsecond, hmillisecond, hutc⟩ := h
    unfold validDatetime
    rw [decide_eq_true_eq, hutc]
    constructor
    · intro hall
      omega
    · intro hne
      exact ⟨Nat.pos_of_ne_zero hne, hmonth.1, hmonth.2, hday.1, hday.2, hhour, hminute, hsecond, by decide, by decide⟩
  by_cases hzero : p.year = 0
  · rw [if_pos hzero, if_neg (fun hv => hvalid.mp hv hzero)]
  · rw [if_neg hzero, if_pos (hvalid.mpr hzero)]

theorem take_utcText (h : UtcTime p) : (utcText p).toList.take 4 = ['0', '0', '0', '0'] ↔ p.year = 0 := by
  have htake : (utcText p).toList.take 4 = digitChars 4 p.year := by
    unfold utcText dateChars
    rw [String.toList_ofList]
    rfl
  have hyear := h.year
  have hread := readDigits_of_lt 4 p.year (by omega) []
  rw [htake]
  constructor
  · intro hdigits
    rw [hdigits, List.append_nil] at hread
    have hzero : readDigits 4 ['0', '0', '0', '0'] = some (0, []) := by decide
    rw [hzero] at hread
    exact (congrArg Prod.fst (Option.some.inj hread)).symm
  · intro hzero
    rw [hzero]
    decide

theorem dash_mem_utcText (p : DateParts) : '-' ∈ (utcText p).toList := by
  unfold utcText dateChars
  rw [String.toList_ofList]
  simp

theorem timestamp_ok (h : IsTimestamp text) (name : String) : timestamp text name = .ok (instant text) := by
  obtain ⟨parsed, hparse⟩ := Option.isSome_iff_exists.mp h.parses
  have hrequired : required text name = .ok text := if_pos h.nonBlank
  unfold timestamp instant
  rw [hrequired, ok_bind, hparse]
  rfl

theorem isTimestamp_utc (h : UtcTimestamp text) : IsTimestamp text := by
  obtain ⟨p, hp, rfl⟩ := h
  refine ⟨List.any_eq_true.mpr ⟨'-', dash_mem_utcText p, by decide⟩, ?_⟩
  rw [dateParse_utcText hp]
  rfl

namespace Reference

theorem timestamp_utc (h : UtcTimestamp text) (hyear : text.toList.take 4 ≠ ['0', '0', '0', '0']) (name : String) :
    timestamp text name = .ok (instant text) := by
  obtain ⟨p, hp, rfl⟩ := h
  have hiso := fromIsoFormat_normalized hp
  rw [if_neg (fun hzero => hyear ((take_utcText hp).mpr hzero))] at hiso
  have hnonEmpty : Python.nonEmpty (utcText p) = true := List.any_eq_true.mpr ⟨'-', dash_mem_utcText p, by decide⟩
  have hrequired : requiredText (utcText p) name = .ok (utcText p) := if_pos hnonEmpty
  unfold timestamp instant
  rw [hrequired, ok_bind, hiso, dateParse_utcText hp]
  rfl

theorem timestamp_year_zero (h : UtcTimestamp text) (hyear : text.toList.take 4 = ['0', '0', '0', '0'])
    (name : String) : ∃ e, timestamp text name = .error e := by
  obtain ⟨p, hp, rfl⟩ := h
  have hiso := fromIsoFormat_normalized hp
  rw [if_pos ((take_utcText hp).mp hyear)] at hiso
  have hnonEmpty : Python.nonEmpty (utcText p) = true := List.any_eq_true.mpr ⟨'-', dash_mem_utcText p, by decide⟩
  have hrequired : requiredText (utcText p) name = .ok (utcText p) := if_pos hnonEmpty
  unfold timestamp
  rw [hrequired, ok_bind, hiso]
  exact ⟨_, rfl⟩

end Reference

/-! ## Scopes -/

theorem requiredTexts_ok (name : String) {texts : List (String × String)} (h : ∀ p ∈ texts, Js.nonEmpty p.2 = true) :
    requiredTexts name texts = .ok () := by
  induction texts with
  | nil => rfl
  | cons p texts ih =>
    have hrequired : required p.2 (name ++ "." ++ p.1) = .ok p.2 := if_pos (h p List.mem_cons_self)
    unfold requiredTexts
    rw [hrequired, ok_bind]
    exact ih fun q hq => h q (List.mem_cons_of_mem _ hq)

theorem stringSets_ok (name : String) {lists : List (String × List String)} (h : ∀ p ∈ lists, StringSet p.2) :
    stringSets name lists = .ok () := by
  induction lists with
  | nil => rfl
  | cons p lists ih =>
    unfold stringSets
    rw [stringSet_ok _ (h p List.mem_cons_self), ok_bind]
    exact ih fun q hq => h q (List.mem_cons_of_mem _ hq)

theorem stringSets_ascending (name : String) {lists : List (String × List String)}
    (hplain : ∀ p ∈ lists, ∀ value ∈ p.2, PlainText value) (h : stringSets name lists = .ok ()) :
    ∀ p ∈ lists, Ascending p.2 := by
  induction lists with
  | nil => exact fun p hp => absurd hp List.not_mem_nil
  | cons p lists ih =>
    obtain ⟨set, hset, hrest⟩ := of_bind_ok h
    intro q hq
    rcases List.mem_cons.mp hq with rfl | hq
    · by_contra hnot
      obtain ⟨e, he⟩ := stringSet_error (name ++ "." ++ q.1) (hplain q List.mem_cons_self) hnot
      rw [hset] at he
      cases he
    · exact ih (fun q hq => hplain q (List.mem_cons_of_mem _ hq)) hrest q hq

theorem validateScope_ok (name : String) (h : WellFormedScope scope) : validateScope scope name = .ok () := by
  unfold validateScope
  rw [requiredTexts_ok name h.texts, ok_bind]
  exact stringSets_ok name h.lists

theorem wellFormedScope_plain (hplain : PlainScope scope) (h : ∀ p ∈ scope.lists, Ascending p.2) : WellFormedScope scope :=
  ⟨fun p hp => (hplain.texts p hp).nonBlank, fun p hp => stringSet_plain (hplain.lists p hp) (h p hp)⟩

theorem validateScope_error (name : String) (hplain : PlainScope scope) (h : ¬ ∀ p ∈ scope.lists, Ascending p.2) :
    ∃ e, validateScope scope name = .error e := by
  cases hscope : validateScope scope name with
  | error e => exact ⟨e, rfl⟩
  | ok u =>
    obtain ⟨-, -, hsets⟩ := of_bind_ok hscope
    exact absurd (stringSets_ascending name hplain.lists hsets) h

namespace Reference

theorem requiredTexts_iff (texts : List (String × String)) :
    requiredTexts texts = .ok () ↔ ∀ p ∈ texts, Python.nonEmpty p.2 = true := by
  induction texts with
  | nil => exact iff_of_true rfl (fun p hp => absurd hp List.not_mem_nil)
  | cons p texts ih =>
    obtain ⟨field, value⟩ := p
    rw [List.forall_mem_cons, ← ih, requiredTexts]
    cases hp : Python.nonEmpty value with
    | true =>
      have hrequired : requiredText value field = .ok value := if_pos hp
      rw [hrequired, ok_bind]
      exact (and_iff_right rfl).symm
    | false =>
      have hrequired : requiredText value field = .error (field ++ " must be a non-empty string") :=
        if_neg (by rw [hp]; exact Bool.false_ne_true)
      rw [hrequired]
      exact iff_of_false (fun h => nomatch h) (fun h => absurd h.1 Bool.false_ne_true)

theorem stringSets_iff (lists : List (String × List String)) :
    stringSets lists = .ok () ↔ ∀ p ∈ lists, (∀ value ∈ p.2, Python.nonEmpty value = true) ∧ Ascending p.2 := by
  induction lists with
  | nil => exact iff_of_true rfl (fun p hp => absurd hp List.not_mem_nil)
  | cons p lists ih =>
    obtain ⟨field, values⟩ := p
    rw [List.forall_mem_cons, ← ih, stringSets]
    by_cases hp : (∀ value ∈ values, Python.nonEmpty value = true) ∧ Ascending values
    · rw [stringSet_ok _ hp.1 hp.2, ok_bind]
      exact (and_iff_right hp).symm
    · have hbad : ¬ Ascending values ∨ ∃ value ∈ values, Python.nonEmpty value = false := by
        by_contra hnot
        rw [not_or, not_not] at hnot
        exact hp ⟨fun value hvalue => Bool.of_not_eq_false (fun hempty => hnot.2 ⟨value, hvalue, hempty⟩), hnot.1⟩
      obtain ⟨e, he⟩ := stringSet_error field hbad
      rw [he]
      exact iff_of_false (fun h => nomatch h) (fun h => hp h.1)

theorem receiptScope_iff (scope : ReceiptScope) : receiptScope scope = .ok ()
      ↔ (∀ text ∈ scopeTexts scope, Python.nonEmpty text = true) ∧ ∀ p ∈ scope.lists, Ascending p.2 := by
  have htexts : (∀ p ∈ scope.texts, Python.nonEmpty p.2 = true) ↔ (∀ p ∈ stringFields scope, Python.nonEmpty p.2 = true)
      ∧ ∀ p ∈ scope.changeSetDigest.toList.map (fun digest => ("changeSetDigest", digest)), Python.nonEmpty p.2 = true := by
    unfold ReceiptScope.texts stringFields
    simp only [List.forall_mem_append, List.forall_mem_cons]
    tauto
  have hall : (∀ text ∈ scopeTexts scope, Python.nonEmpty text = true) ↔ (∀ p ∈ scope.texts, Python.nonEmpty p.2 = true)
      ∧ ∀ p ∈ scope.lists, ∀ value ∈ p.2, Python.nonEmpty value = true := by
    unfold scopeTexts
    simp only [List.forall_mem_append, List.forall_mem_map, List.mem_flatMap, forall_exists_index, and_imp]
    exact and_congr_right fun _ => ⟨fun h p hp value hvalue => h value p hp hvalue, fun h value p hp hvalue => h p hp value hvalue⟩
  have hlists : (∀ p ∈ scope.lists, (∀ value ∈ p.2, Python.nonEmpty value = true) ∧ Ascending p.2)
      ↔ (∀ p ∈ scope.lists, ∀ value ∈ p.2, Python.nonEmpty value = true) ∧ ∀ p ∈ scope.lists, Ascending p.2 :=
    ⟨fun h => ⟨fun p hp => (h p hp).1, fun p hp => (h p hp).2⟩, fun h p hp => ⟨h.1 p hp, h.2 p hp⟩⟩
  rw [hall, htexts, ← requiredTexts_iff, ← requiredTexts_iff, and_assoc, ← hlists, ← stringSets_iff, and_assoc]
  unfold receiptScope
  constructor
  · intro h
    obtain ⟨⟨⟩, hfields, h⟩ := of_bind_ok h
    obtain ⟨⟨⟩, hdigest, h⟩ := of_bind_ok h
    exact ⟨hfields, hdigest, h⟩
  · rintro ⟨hfields, hdigest, hsets⟩
    rw [hfields, ok_bind, hdigest, ok_bind, hsets]

end Reference

/-! ## Reasons -/

theorem find?_cons_decide {α : Type} (c : Prop) [Decidable c] (a : α) (l : List (Bool × α)) :
    (((decide c, a) :: l).find? (fun p => p.1)).map Prod.snd
      = if c then some a else (l.find? (fun p => p.1)).map Prod.snd := by
  by_cases h : c
  · simp [h]
  · simp [h]

theorem find?_fieldReasons (candidate required : ReceiptScope) :
    ((Reference.fieldReasons candidate required).find? (fun p => p.1)).map Prod.snd = firstMismatch candidate required := by
  unfold Reference.fieldReasons firstMismatch
  simp only [find?_cons_decide]
  rfl

theorem sameIdentity_iff (candidate required : ReceiptScope) :
    SameIdentity candidate required ↔ ∀ p ∈ Reference.fieldReasons candidate required, p.1 = false := by
  obtain ⟨⟨_, _, _, _, _, _, _, _, _, _, _, _⟩, _, _⟩ := candidate
  obtain ⟨⟨_, _, _, _, _, _, _, _, _, _, _, _⟩, _, _⟩ := required
  simp only [SameIdentity, ReceiptScope.mk.injEq, ValidationScope.PremiseValidationScope.mk.injEq, Reference.fieldReasons,
    List.forall_mem_cons, decide_eq_false_iff_not, not_not]
  simp [and_assoc]

theorem firstMismatch_eq_none (candidate required : ReceiptScope) :
    firstMismatch candidate required = none ↔ SameIdentity candidate required := by
  rw [← find?_fieldReasons, Option.map_eq_none_iff, List.find?_eq_none, sameIdentity_iff]
  simp only [Bool.not_eq_true]

theorem firstMismatch_ne {candidate required : ReceiptScope} {reason : ReceiptSubsumptionReason}
    (h : firstMismatch candidate required = some reason) :
    reason ≠ .match_ ∧ reason ≠ .invalid ∧ reason ≠ .expired := by
  have hreasons : ∀ p ∈ Reference.fieldReasons candidate required, p.2 ≠ .match_ ∧ p.2 ≠ .invalid ∧ p.2 ≠ .expired := by
    unfold Reference.fieldReasons
    simp only [List.forall_mem_cons]
    simp
  rw [← find?_fieldReasons, Option.map_eq_some_iff] at h
  obtain ⟨p, hp, rfl⟩ := h
  exact hreasons p (List.mem_of_find?_eq_some hp)

/-- The reason when no check fails and no time has run out; `same` says whether the frontiers count as equal. -/
def pureReason (same : Bool) (candidate : ReceiptCandidate T) (requirement : ReceiptRequirement) :
    ReceiptSubsumptionReason :=
  match firstMismatch candidate.scope requirement.scope with
  | some reason => reason
  | none =>
    if requirement.requiredQueryParts ⊆ candidate.scope.queryParts then
      if requirement.requiredScopes ⊆ candidate.scope.scopes then
        if same = true ∧ requirement.requiredFrontier ⊆ requirement.scope.causalFrontier then .match_ else .frontierInsufficient
      else .scopeInsufficient
    else .queryInsufficient

theorem pureReason_ne (same : Bool) (candidate : ReceiptCandidate T) (requirement : ReceiptRequirement) :
    pureReason same candidate requirement ≠ .invalid ∧ pureReason same candidate requirement ≠ .expired := by
  unfold pureReason
  cases h : firstMismatch candidate.scope requirement.scope with
  | some reason => exact (firstMismatch_ne h).2
  | none =>
    split_ifs <;> exact ⟨by decide, by decide⟩

theorem pureReason_eq_match (same : Bool) (candidate : ReceiptCandidate T) (requirement : ReceiptRequirement) :
    pureReason same candidate requirement = .match_ ↔ Covers candidate requirement ∧ same = true := by
  unfold pureReason
  cases h : firstMismatch candidate.scope requirement.scope with
  | some reason =>
    have hidentity := mt (firstMismatch_eq_none candidate.scope requirement.scope).mpr (by rw [h]; exact Option.some_ne_none _)
    exact iff_of_false (firstMismatch_ne h).1 fun hcovers => hidentity hcovers.1.identity
  | none =>
    have hidentity := (firstMismatch_eq_none candidate.scope requirement.scope).mp h
    split_ifs with hparts hscopes hrest
    · exact iff_of_true rfl ⟨⟨hidentity, hparts, hscopes, hrest.2⟩, hrest.1⟩
    · exact iff_of_false (by decide) fun hcovers => hrest ⟨hcovers.2, hcovers.1.frontier⟩
    · exact iff_of_false (by decide) fun hcovers => hscopes hcovers.1.scopes
    · exact iff_of_false (by decide) fun hcovers => hparts hcovers.1.queryParts

theorem reason_chain {ε : Type} {parts scopes same frontier : Prop} [Decidable parts] [Decidable scopes] [Decidable same]
    [Decidable frontier] :
    (if ¬ parts then pure .queryInsufficient
      else if ¬ scopes then pure .scopeInsufficient
      else if ¬ same then pure .frontierInsufficient
      else if ¬ frontier then pure .frontierInsufficient
      else pure .match_ : Except ε ReceiptSubsumptionReason)
      = .ok (if parts then
          if scopes then if same ∧ frontier then .match_ else .frontierInsufficient else .scopeInsufficient
        else .queryInsufficient) := by
  by_cases hparts : parts
  · by_cases hscopes : scopes
    · by_cases hsame : same
      · by_cases hfrontier : frontier
        · simp [hparts, hscopes, hsame, hfrontier, pure, Except.pure]
        · simp [hparts, hscopes, hsame, hfrontier, pure, Except.pure]
      · simp [hparts, hscopes, hsame, pure, Except.pure]
    · simp [hparts, hscopes, pure, Except.pure]
  · simp [hparts, pure, Except.pure]

variable {candidate : ReceiptCandidate T} {requirement : ReceiptRequirement}

theorem pureReason_congr {same same' : Bool} (h : Covers candidate requirement → same = same') :
    pureReason same candidate requirement = pureReason same' candidate requirement := by
  by_cases hcovers : Covers candidate requirement
  · rw [h hcovers]
  · unfold pureReason
    cases hmismatch : firstMismatch candidate.scope requirement.scope with
    | some reason => rfl
    | none =>
      have hidentity := (firstMismatch_eq_none candidate.scope requirement.scope).mp hmismatch
      split_ifs with hparts hscopes hrest hrest' hrest'
      · rfl
      · exact absurd ⟨hidentity, hparts, hscopes, hrest.2⟩ hcovers
      · exact absurd ⟨hidentity, hparts, hscopes, hrest'.2⟩ hcovers
      · rfl
      · rfl
      · rfl

/-! ## The runtime -/

def answer (candidate : ReceiptCandidate T) (reason : ReceiptSubsumptionReason) : ReceiptSubsumptionResult T :=
  if reason = .match_ then { eligible := true, reason := reason, receipt := some candidate }
  else { eligible := false, reason := reason }

theorem eligible_answer (candidate : ReceiptCandidate T) (reason : ReceiptSubsumptionReason) :
    (answer candidate reason).eligible = true ↔ reason = .match_ := by
  unfold answer
  split_ifs with hreason
  · exact iff_of_true rfl hreason
  · exact iff_of_false not_false hreason

section Runtime

variable {candidate : ReceiptCandidate T} {requirement : ReceiptRequirement}

theorem assess_eq_of_checked {result : ReceiptSubsumptionResult T} (h : assessChecked candidate requirement = .ok result) :
    assessReceiptSubsumption candidate requirement = result := by
  unfold assessReceiptSubsumption
  rw [h]

theorem assess_eq_of_error {e : JsError} (h : assessChecked candidate requirement = .error e) :
    assessReceiptSubsumption candidate requirement = answer candidate .invalid := by
  unfold assessReceiptSubsumption
  rw [h]
  rfl

/-- What is checked before the times are compared. -/
structure Checked (candidate : ReceiptCandidate T) (requirement : ReceiptRequirement) : Prop where
  candidate : WellFormedCandidate candidate
  scope : WellFormedScope requirement.scope
  now : IsTimestamp requirement.now

theorem checked_plain (hcandidate : PlainCandidate candidate) (hrequirement : PlainRequirement requirement)
    (h : ScopesAscending candidate requirement) : Checked candidate requirement where
  candidate := ⟨hcandidate.receiptId.nonBlank, wellFormedScope_plain hcandidate.scope h.1,
    isTimestamp_utc hcandidate.observedAt, isTimestamp_utc hcandidate.expiresAt⟩
  scope := wellFormedScope_plain hrequirement.scope h.2
  now := isTimestamp_utc hrequirement.now

theorem wellFormed_plain (hrequirement : PlainRequirement requirement) (h : ∀ p ∈ requirement.scope.lists, Ascending p.2)
    (hrequired : RequiredAscending requirement) : WellFormedRequirement requirement where
  scope := wellFormedScope_plain hrequirement.scope h
  queryParts := stringSet_plain hrequirement.queryParts hrequired.1
  scopes := stringSet_plain hrequirement.scopes hrequired.2.1
  frontier := stringSet_plain hrequirement.frontier hrequired.2.2
  now := isTimestamp_utc hrequirement.now

theorem assess_scopes (hcandidate : PlainCandidate candidate) (hrequirement : PlainRequirement requirement)
    (h : ¬ ScopesAscending candidate requirement) :
    assessReceiptSubsumption candidate requirement = answer candidate .invalid := by
  have hreceiptId : required candidate.receiptId "receiptId" = .ok candidate.receiptId := if_pos hcandidate.receiptId.nonBlank
  by_cases hscope : ∀ p ∈ candidate.scope.lists, Ascending p.2
  · obtain ⟨e, he⟩ := validateScope_error "requirement.scope" hrequirement.scope (fun hall => h ⟨hscope, hall⟩)
    have hchecked : assessChecked candidate requirement = .error e := by
      unfold assessChecked
      rw [hreceiptId, ok_bind, validateScope_ok _ (wellFormedScope_plain hcandidate.scope hscope), ok_bind, he]
      rfl
    exact assess_eq_of_error hchecked
  · obtain ⟨e, he⟩ := validateScope_error "candidate.scope" hcandidate.scope hscope
    have hchecked : assessChecked candidate requirement = .error e := by
      unfold assessChecked
      rw [hreceiptId, ok_bind, he]
      rfl
    exact assess_eq_of_error hchecked

theorem assessChecked_times (h : Checked candidate requirement) : assessChecked candidate requirement
      = if instant candidate.expiresAt ≤ instant candidate.observedAt
          ∨ instant candidate.observedAt > instant requirement.now then .ok (answer candidate .invalid)
        else if instant requirement.now ≥ instant candidate.expiresAt then .ok (answer candidate .expired)
        else (do
          let _ ← stringSet requirement.requiredQueryParts "requiredQueryParts"
          let _ ← stringSet requirement.requiredScopes "requiredScopes"
          let _ ← stringSet requirement.requiredFrontier "requiredFrontier"
          let reason ← scopeReason candidate.scope requirement.scope requirement
          pure (answer candidate reason)) := by
  have hreceiptId : required candidate.receiptId "receiptId" = .ok candidate.receiptId := if_pos h.candidate.receiptId
  unfold assessChecked
  rw [hreceiptId, ok_bind, validateScope_ok _ h.candidate.scope, ok_bind, validateScope_ok _ h.scope, ok_bind,
    timestamp_ok h.now, ok_bind, timestamp_ok h.candidate.observedAt, ok_bind, timestamp_ok h.candidate.expiresAt, ok_bind]
  have hanswer : ∀ reason, (if reason = .match_ then
      (pure { eligible := true, reason := reason, receipt := some candidate } : Except JsError (ReceiptSubsumptionResult T))
      else pure { eligible := false, reason := reason }) = pure (answer candidate reason) := by
    intro reason
    unfold answer
    split_ifs
    · rfl
    · rfl
  simp only [hanswer]
  rfl

theorem scopeReason_eq (hcandidate : WellFormedCandidate candidate) (hrequirement : WellFormedRequirement requirement) :
    scopeReason candidate.scope requirement.scope requirement
      = .ok (pureReason (decide (joinNul candidate.scope.causalFrontier = joinNul requirement.scope.causalFrontier))
          candidate requirement) := by
  have hcovers : ∀ available requiredValues : List String,
      covers (OrderedSet.ofList available) (OrderedSet.ofList requiredValues) = true ↔ requiredValues ⊆ available := by
    intro available requiredValues
    unfold covers
    rw [List.all_eq_true]
    simp only [OrderedSet.has_eq_true, OrderedSet.mem_ofList, ← OrderedSet.mem_def]
    exact Iff.rfl
  have hlist : ∀ p ∈ candidate.scope.lists, ∀ name, stringSet p.2 name = .ok (OrderedSet.ofList p.2) :=
    fun p hp name => stringSet_ok name (hcandidate.scope.lists p hp)
  have hparts := hlist _ (List.mem_cons_self)
  have hscopes := hlist _ (List.mem_cons_of_mem _ List.mem_cons_self)
  unfold scopeReason pureReason
  cases firstMismatch candidate.scope requirement.scope with
  | some reason => rfl
  | none =>
    rw [hparts, ok_bind, stringSet_ok _ hrequirement.queryParts, ok_bind, hscopes, ok_bind,
      stringSet_ok _ hrequirement.scopes, ok_bind, stringSet_ok _ hrequirement.frontier, ok_bind]
    simp only [Bool.not_eq_true', ← Bool.not_eq_true, hcovers, decide_eq_true_eq]
    exact reason_chain

theorem not_observed_iff : ¬ Observed candidate requirement ↔ instant candidate.expiresAt ≤ instant candidate.observedAt
    ∨ instant candidate.observedAt > instant requirement.now := by
  unfold Observed
  omega

theorem expired_iff : Expired candidate requirement ↔ instant requirement.now ≥ instant candidate.expiresAt := Iff.rfl

theorem assess_unobserved (h : Checked candidate requirement) (hobserved : ¬ Observed candidate requirement) :
    assessReceiptSubsumption candidate requirement = answer candidate .invalid := by
  refine assess_eq_of_checked ?_
  rw [assessChecked_times h, if_pos (not_observed_iff.mp hobserved)]

theorem assess_expired (h : Checked candidate requirement) (hobserved : Observed candidate requirement)
    (hexpired : Expired candidate requirement) :
    assessReceiptSubsumption candidate requirement = answer candidate .expired := by
  refine assess_eq_of_checked ?_
  rw [assessChecked_times h, if_neg (mt not_observed_iff.mpr (not_not_intro hobserved)), if_pos (expired_iff.mp hexpired)]

theorem assess_required (hcandidate : PlainCandidate candidate) (hrequirement : PlainRequirement requirement)
    (h : ScopesAscending candidate requirement) (hobserved : Observed candidate requirement)
    (hfresh : ¬ Expired candidate requirement) (hrequired : ¬ RequiredAscending requirement) :
    assessReceiptSubsumption candidate requirement = answer candidate .invalid := by
  have hprefix := assessChecked_times (checked_plain hcandidate hrequirement h)
  rw [if_neg (mt not_observed_iff.mpr (not_not_intro hobserved)), if_neg (mt expired_iff.mpr hfresh)] at hprefix
  cases hchecked : assessChecked candidate requirement with
  | error e => exact assess_eq_of_error hchecked
  | ok result =>
    rw [hchecked] at hprefix
    obtain ⟨parts, hparts, hrest⟩ := of_bind_ok hprefix.symm
    obtain ⟨scopes, hscopes, hrest⟩ := of_bind_ok hrest
    obtain ⟨frontier, hfrontier, -⟩ := of_bind_ok hrest
    have hascending : ∀ (values : List String) (name : String) set, (∀ value ∈ values, PlainText value) →
        stringSet values name = .ok set → Ascending values := by
      intro values name set hvalues hset
      by_contra hnot
      obtain ⟨e, he⟩ := stringSet_error name hvalues hnot
      rw [hset] at he
      cases he
    exact absurd ⟨hascending _ _ _ hrequirement.queryParts hparts, hascending _ _ _ hrequirement.scopes hscopes,
      hascending _ _ _ hrequirement.frontier hfrontier⟩ hrequired

theorem assess_reason (hcandidate : WellFormedCandidate candidate) (hrequirement : WellFormedRequirement requirement)
    (hobserved : Observed candidate requirement) (hfresh : ¬ Expired candidate requirement) :
    assessReceiptSubsumption candidate requirement = answer candidate
      (pureReason (decide (joinNul candidate.scope.causalFrontier = joinNul requirement.scope.causalFrontier)) candidate
        requirement) := by
  refine assess_eq_of_checked ?_
  rw [assessChecked_times ⟨hcandidate, hrequirement.scope, hrequirement.now⟩,
    if_neg (mt not_observed_iff.mpr (not_not_intro hobserved)), if_neg (mt expired_iff.mpr hfresh),
    stringSet_ok _ hrequirement.queryParts, ok_bind, stringSet_ok _ hrequirement.scopes, ok_bind,
    stringSet_ok _ hrequirement.frontier, ok_bind, scopeReason_eq hcandidate hrequirement, ok_bind]
  rfl

end Runtime

/-! ## The reference -/

namespace Reference

variable {candidate : ReceiptCandidate T} {requirement : ReceiptRequirement}

theorem not_refused_iff : ¬ Refused candidate requirement
    ↔ (∀ text ∈ candidate.receiptId :: scopeTexts candidate.scope ++ scopeTexts requirement.scope
        ++ requirement.requiredQueryParts ++ requirement.requiredScopes ++ requirement.requiredFrontier,
        Python.nonEmpty text = true)
      ∧ ∀ text ∈ [candidate.observedAt, candidate.expiresAt, requirement.now], text.toList.take 4 ≠ ['0', '0', '0', '0'] := by
  unfold Refused
  rw [not_or, not_exists, not_exists]
  refine and_congr (forall_congr' (fun text => ?_)) (forall_congr' (fun text => not_and))
  rw [not_and, ← python_nonEmpty_eq_false, Bool.not_eq_false]

/-- What the reference goes through before it compares instants. -/
structure Accepted (candidate : ReceiptCandidate T) (requirement : ReceiptRequirement) : Prop where
  notRefused : ¬ Refused candidate requirement
  scopes : ScopesAscending candidate requirement
  required : RequiredAscending requirement

theorem stringSet_iff (values : List String) (name : String) :
    stringSet values name = .ok values ↔ (∀ value ∈ values, Python.nonEmpty value = true) ∧ Ascending values := by
  constructor
  · intro h
    by_contra hnot
    have hbad : ¬ Ascending values ∨ ∃ value ∈ values, Python.nonEmpty value = false := by
      by_contra hgood
      rw [not_or, not_not] at hgood
      exact hnot ⟨fun value hvalue => Bool.of_not_eq_false (fun hempty => hgood.2 ⟨value, hvalue, hempty⟩), hgood.1⟩
    obtain ⟨e, he⟩ := stringSet_error name hbad
    rw [h] at he
    cases he
  · exact fun h => stringSet_ok name h.1 h.2

theorem eq_of_stringSet {set : List String} {name : String} (h : stringSet values name = .ok set) : set = values := by
  unfold stringSet at h
  obtain ⟨-, h⟩ := of_check_ok h
  obtain ⟨-, h⟩ := of_check_ok h
  exact (Except.ok.inj h).symm

theorem nonEmpty_of_requiredText {name result : String} (h : requiredText text name = .ok result) :
    Python.nonEmpty text = true := by
  unfold requiredText at h
  split_ifs at h with hnonEmpty
  exact hnonEmpty

theorem year_of_timestamp {name : String} {result : Int} (htext : UtcTimestamp text)
    (h : timestamp text name = .ok result) : text.toList.take 4 ≠ ['0', '0', '0', '0'] := by
  intro hyear
  obtain ⟨e, he⟩ := timestamp_year_zero htext hyear name
  rw [h] at he
  cases he

theorem accepted_of_checked (hcandidate : PlainCandidate candidate) (hrequirement : PlainRequirement requirement)
    {result : ReceiptSubsumptionResult T} (h : assessChecked candidate requirement = .ok result) :
    Accepted candidate requirement := by
  unfold assessChecked at h
  obtain ⟨receiptId, hreceiptId, h⟩ := of_bind_ok h
  obtain ⟨now, hnow, h⟩ := of_bind_ok h
  obtain ⟨expiresAt, hexpiresAt, h⟩ := of_bind_ok h
  obtain ⟨observedAt, hobservedAt, h⟩ := of_bind_ok h
  obtain ⟨⟨⟩, hscope, h⟩ := of_bind_ok h
  obtain ⟨⟨⟩, hscope', h⟩ := of_bind_ok h
  obtain ⟨parts, hparts, h⟩ := of_bind_ok h
  obtain ⟨scopes, hscopes, h⟩ := of_bind_ok h
  obtain ⟨frontier, hfrontier, h⟩ := of_bind_ok h
  obtain rfl := eq_of_stringSet hparts
  obtain rfl := eq_of_stringSet hscopes
  obtain rfl := eq_of_stringSet hfrontier
  rw [receiptScope_iff] at hscope hscope'
  rw [stringSet_iff] at hparts hscopes hfrontier
  refine ⟨not_refused_iff.mpr ⟨?_, ?_⟩, ⟨hscope.2, hscope'.2⟩, hparts.2, hscopes.2, hfrontier.2⟩
  · simp only [List.forall_mem_append, List.forall_mem_cons]
    exact ⟨⟨⟨⟨⟨nonEmpty_of_requiredText hreceiptId, hscope.1⟩, hscope'.1⟩, hparts.1⟩, hscopes.1⟩, hfrontier.1⟩
  · simp only [List.forall_mem_cons]
    exact ⟨year_of_timestamp hcandidate.observedAt hobservedAt, year_of_timestamp hcandidate.expiresAt hexpiresAt,
      year_of_timestamp hrequirement.now hnow, fun _ h => absurd h List.not_mem_nil⟩

theorem assess_rejected (hcandidate : PlainCandidate candidate) (hrequirement : PlainRequirement requirement)
    (h : ¬ Accepted candidate requirement) :
    assessReceiptSubsumption candidate requirement = answer candidate .invalid := by
  unfold assessReceiptSubsumption
  cases hchecked : assessChecked candidate requirement with
  | error e => rfl
  | ok result => exact absurd (accepted_of_checked hcandidate hrequirement hchecked) h

theorem receiptScopeReason_eq (h : Accepted candidate requirement) :
    receiptScopeReason candidate.scope requirement.scope requirement
      = .ok (pureReason (decide (candidate.scope.causalFrontier = requirement.scope.causalFrontier)) candidate requirement) := by
  have htexts := (not_refused_iff.mp h.notRefused).1
  simp only [List.forall_mem_append, List.forall_mem_cons] at htexts
  obtain ⟨⟨⟨⟨⟨-, hscope⟩, -⟩, hparts⟩, hscopes⟩, hfrontier⟩ := htexts
  have hlist : ∀ p ∈ candidate.scope.lists, ∀ name, stringSet p.2 name = .ok p.2 := by
    intro p hp name
    refine stringSet_ok name (fun value hvalue => hscope value ?_) (h.scopes.1 p hp)
    exact List.mem_append_right _ (List.mem_flatMap.mpr ⟨p, hp, hvalue⟩)
  have hparts' := hlist _ (List.mem_cons_self)
  have hscopes' := hlist _ (List.mem_cons_of_mem _ List.mem_cons_self)
  have hcovers : ∀ available required : List String, covers available required = true ↔ required ⊆ available := by
    intro available required
    unfold covers
    rw [List.all_eq_true]
    simp only [decide_eq_true_eq]
    exact Iff.rfl
  have hfields := find?_fieldReasons candidate.scope requirement.scope
  unfold receiptScopeReason pureReason
  rw [← hfields]
  cases (fieldReasons candidate.scope requirement.scope).find? (fun p => p.1) with
  | some p => rfl
  | none =>
    dsimp only [Option.map_none]
    rw [hparts', ok_bind, stringSet_ok _ hparts h.required.1, ok_bind, hscopes', ok_bind,
      stringSet_ok _ hscopes h.required.2.1, ok_bind, stringSet_ok _ hfrontier h.required.2.2, ok_bind]
    simp only [Bool.not_eq_true', ← Bool.not_eq_true, hcovers, decide_eq_true_eq]
    exact reason_chain

theorem assess_accepted (hcandidate : PlainCandidate candidate) (hrequirement : PlainRequirement requirement)
    (h : Accepted candidate requirement) :
    assessReceiptSubsumption candidate requirement
      = if instant candidate.expiresAt ≤ instant candidate.observedAt
          ∨ instant candidate.observedAt > instant requirement.now then answer candidate .invalid
        else if instant requirement.now ≥ instant candidate.expiresAt then answer candidate .expired
        else answer candidate
          (pureReason (decide (candidate.scope.causalFrontier = requirement.scope.causalFrontier)) candidate requirement) := by
  obtain ⟨htexts, hyears⟩ := not_refused_iff.mp h.notRefused
  simp only [List.forall_mem_append, List.forall_mem_cons] at htexts hyears
  obtain ⟨⟨⟨⟨⟨hreceiptId, hscope⟩, hscope'⟩, hparts⟩, hscopes⟩, hfrontier⟩ := htexts
  obtain ⟨hobservedAt, hexpiresAt, hnow, -⟩ := hyears
  have hrequiredText : requiredText candidate.receiptId "receiptId" = .ok candidate.receiptId := if_pos hreceiptId
  unfold assessReceiptSubsumption assessChecked
  rw [hrequiredText, ok_bind, timestamp_utc hrequirement.now hnow, ok_bind, timestamp_utc hcandidate.expiresAt hexpiresAt,
    ok_bind, timestamp_utc hcandidate.observedAt hobservedAt, ok_bind, (receiptScope_iff _).mpr ⟨hscope, h.scopes.1⟩,
    ok_bind, (receiptScope_iff _).mpr ⟨hscope', h.scopes.2⟩, ok_bind, stringSet_ok _ hparts h.required.1, ok_bind,
    stringSet_ok _ hscopes h.required.2.1, ok_bind, stringSet_ok _ hfrontier h.required.2.2, ok_bind]
  rw [receiptScopeReason_eq h, ok_bind]
  generalize pureReason _ candidate requirement = reason
  have hanswer : (if reason ≠ .match_ then
      (pure { eligible := false, reason := reason } : Except String (ReceiptSubsumptionResult T))
      else pure { eligible := true, reason := .match_, receipt := some candidate }) = .ok (answer candidate reason) := by
    unfold answer
    by_cases hreason : reason = .match_
    · rw [if_neg (not_not_intro hreason), if_pos hreason, hreason]
      rfl
    · rw [if_pos hreason, if_neg hreason]
      rfl
  rw [hanswer]
  split_ifs
  · rfl
  · rfl
  · rfl

end Reference

section Both

variable {candidate : ReceiptCandidate T} {requirement : ReceiptRequirement}

theorem answers_agree_iff (candidate : ReceiptCandidate T) (reason reason' : ReceiptSubsumptionReason) :
    ((answer candidate reason).eligible = (answer candidate reason').eligible
      ∧ (answer candidate reason).reason = (answer candidate reason').reason) ↔ reason = reason' := by
  have hreason : ∀ reason, (answer candidate reason).reason = reason := by
    intro reason
    unfold answer
    split_ifs
    · rfl
    · rfl
  rw [hreason, hreason]
  exact ⟨fun h => h.2, fun h => ⟨by rw [h], h⟩⟩

theorem assessed_iff (hcandidate : PlainCandidate candidate) (hrequirement : PlainRequirement requirement) :
    ((assessReceiptSubsumption candidate requirement).eligible
        = (Reference.assessReceiptSubsumption candidate requirement).eligible
      ∧ (assessReceiptSubsumption candidate requirement).reason
        = (Reference.assessReceiptSubsumption candidate requirement).reason) ↔ ¬ Diverges candidate requirement := by
  unfold Diverges
  by_cases hscopes : ScopesAscending candidate requirement
  · by_cases hobserved : Observed candidate requirement
    · have hpositive := mt not_observed_iff.mpr (not_not_intro hobserved)
      by_cases hexpired : Expired candidate requirement
      · rw [assess_expired (checked_plain hcandidate hrequirement hscopes) hobserved hexpired]
        by_cases haccepted : Reference.Accepted candidate requirement
        · rw [Reference.assess_accepted hcandidate hrequirement haccepted, if_neg hpositive,
            if_pos (expired_iff.mp hexpired), answers_agree_iff]
          have hnot := haccepted.notRefused
          have hrequired := haccepted.required
          grind
        · rw [Reference.assess_rejected hcandidate hrequirement haccepted, answers_agree_iff]
          have hrejected : ¬ RequiredAscending requirement ∨ Refused candidate requirement := by
            by_contra hnot
            rw [not_or, not_not] at hnot
            exact haccepted ⟨hnot.2, hscopes, hnot.1⟩
          exact iff_of_false (by decide) (not_not_intro ⟨hscopes, hobserved, .inl ⟨hexpired, hrejected⟩⟩)
      · by_cases hrequired : RequiredAscending requirement
        · rw [assess_reason (checked_plain hcandidate hrequirement hscopes).candidate
          (wellFormed_plain hrequirement hscopes.2 hrequired) hobserved hexpired]
          by_cases hrefused : Refused candidate requirement
          · rw [Reference.assess_rejected hcandidate hrequirement (fun h => h.notRefused hrefused), answers_agree_iff]
            exact iff_of_false (pureReason_ne _ _ _).1
              (not_not_intro ⟨hscopes, hobserved, .inr ⟨hexpired, hrequired, .inl hrefused⟩⟩)
          · rw [Reference.assess_accepted hcandidate hrequirement ⟨hrefused, hscopes, hrequired⟩, if_neg hpositive,
              if_neg (mt expired_iff.mpr hexpired), answers_agree_iff]
            by_cases hcollide : Covers candidate requirement ∧ FrontiersCollide candidate requirement
            · have hmatch := (pureReason_eq_match
                (decide (joinNul candidate.scope.causalFrontier = joinNul requirement.scope.causalFrontier)) candidate
                requirement).mpr ⟨hcollide.1, decide_eq_true hcollide.2.2⟩
              refine iff_of_false (fun heq => ?_)
                (not_not_intro ⟨hscopes, hobserved, .inr ⟨hexpired, hrequired, .inr hcollide⟩⟩)
              rw [hmatch] at heq
              exact hcollide.2.1 (of_decide_eq_true ((pureReason_eq_match _ _ _).mp heq.symm).2)
            · refine iff_of_true (pureReason_congr (fun hcovers => ?_)) ?_
              · have hjoin : joinNul candidate.scope.causalFrontier = joinNul requirement.scope.causalFrontier
                    ↔ candidate.scope.causalFrontier = requirement.scope.causalFrontier := by
                  refine ⟨fun hjoin => ?_, fun heq => by rw [heq]⟩
                  by_contra hne
                  exact hcollide ⟨hcovers, hne, hjoin⟩
                exact decide_eq_decide.mpr hjoin
              · grind
        · rw [assess_required hcandidate hrequirement hscopes hobserved hexpired hrequired,
            Reference.assess_rejected hcandidate hrequirement (fun h => hrequired h.required), answers_agree_iff]
          grind
    · rw [assess_unobserved (checked_plain hcandidate hrequirement hscopes) hobserved]
      have hreference : Reference.assessReceiptSubsumption candidate requirement = answer candidate .invalid := by
        by_cases haccepted : Reference.Accepted candidate requirement
        · rw [Reference.assess_accepted hcandidate hrequirement haccepted, if_pos (not_observed_iff.mp hobserved)]
        · exact Reference.assess_rejected hcandidate hrequirement haccepted
      rw [hreference, answers_agree_iff]
      tauto
  · rw [assess_scopes hcandidate hrequirement hscopes,
      Reference.assess_rejected hcandidate hrequirement (fun h => hscopes h.scopes), answers_agree_iff]
    tauto

theorem eligible_iff (hcandidate : PlainCandidate candidate) (hrequirement : PlainRequirement requirement) :
    (Reference.assessReceiptSubsumption candidate requirement).eligible = true ↔ Matches requirement candidate := by
  unfold Matches
  by_cases haccepted : Reference.Accepted candidate requirement
  · rw [Reference.assess_accepted hcandidate hrequirement haccepted]
    obtain ⟨hrefused, hscopes, hrequired⟩ := haccepted
    split_ifs with hinvalid hexpired
    · have hobserved := not_observed_iff.mpr hinvalid
      rw [eligible_answer]
      exact iff_of_false (by decide) fun h => hobserved h.2.2.2.1
    · rw [eligible_answer]
      exact iff_of_false (by decide) fun h => h.2.2.2.2.1 (expired_iff.mpr hexpired)
    · have hobserved : Observed candidate requirement := not_not.mp (mt not_observed_iff.mp hinvalid)
      rw [eligible_answer, pureReason_eq_match, decide_eq_true_eq]
      exact ⟨fun h => ⟨hscopes, hrequired, hrefused, hobserved, mt expired_iff.mp hexpired, h.1, h.2⟩, fun h => h.2.2.2.2.2⟩
  · rw [Reference.assess_rejected hcandidate hrequirement haccepted, eligible_answer]
    exact iff_of_false (by decide) fun h => haccepted ⟨h.2.2.1, h.1, h.2.1⟩

end Both

/-! ## Selection -/

theorem compares_receipts {localeCompare : String → String → Int} {collationKey : String → κ}
    (hlocale : Compares localeCompare collationKey) :
    Compares (compareReceipts (T := T) localeCompare) (receiptRank collationKey) := by
  have hinstant : ∀ value : ReceiptCandidate T → String,
      Compares (fun left right => (dateParse (value right)).getD 0 - (dateParse (value left)).getD 0)
        (fun candidate => OrderDual.toDual (instant (value candidate))) := by
    intro value
    exact ⟨fun left right => sub_nonpos, fun left right => sub_nonneg⟩
  exact (hinstant ReceiptCandidate.observedAt).orElse ((hinstant ReceiptCandidate.expiresAt).orElse
    ⟨fun left right => hlocale.nonpos _ _, fun left right => hlocale.nonneg _ _⟩)

theorem compares_points : Compares Reference.comparePoints codePoints := by
  constructor
  · intro left right
    unfold Reference.comparePoints
    split_ifs with heq hlt
    · simp [heq]
    · simp [hlt.le]
    · simp [lt_of_le_of_ne (not_lt.mp hlt) (Ne.symm heq)]
  · intro left right
    unfold Reference.comparePoints
    split_ifs with heq hlt
    · simp [heq]
    · simp [hlt]
    · simp [not_lt.mp hlt]

theorem compares_ids : Compares (fun left right : ReceiptCandidate T =>
    Reference.comparePoints left.receiptId right.receiptId) (fun candidate => codePoints candidate.receiptId) :=
  ⟨fun _ _ => compares_points.nonpos _ _, fun _ _ => compares_points.nonneg _ _⟩

theorem filterMap_eligible {assess : ReceiptCandidate T → ReceiptSubsumptionResult T} {candidates : List (ReceiptCandidate T)}
    (h : ∀ candidate ∈ candidates, ∃ reason, assess candidate = answer candidate reason) :
    (candidates.map assess).filterMap (fun result => if result.eligible then result.receipt else none)
      = candidates.filter (fun candidate => (assess candidate).eligible) := by
  induction candidates with
  | nil => rfl
  | cons candidate candidates ih =>
    obtain ⟨reason, hassess⟩ := h candidate List.mem_cons_self
    have hrest := ih (fun c hc => h c (List.mem_cons_of_mem _ hc))
    rw [List.map_cons, List.filterMap_cons, List.filter_cons, hrest, hassess]
    unfold answer
    by_cases hreason : reason = .match_
    · rw [if_pos hreason]
      rfl
    · rw [if_neg hreason]
      rfl

theorem head?_eligible {assess : ReceiptCandidate T → ReceiptSubsumptionResult T}
    {compare : ReceiptCandidate T → ReceiptCandidate T → Int} {key : ReceiptCandidate T → κ} (hcompare : Compares compare key)
    {candidates : List (ReceiptCandidate T)} {good : ReceiptCandidate T → Prop}
    (hanswer : ∀ candidate ∈ candidates, ∃ reason, assess candidate = answer candidate reason)
    (hgood : ∀ candidate ∈ candidates, ((assess candidate).eligible = true ↔ good candidate)) (best : ReceiptCandidate T) :
    (sortBy compare ((candidates.map assess).filterMap (fun result => if result.eligible then result.receipt else none))).head?
        = some best ↔ FirstBest key good candidates best := by
  rw [filterMap_eligible hanswer, head?_sortBy_filter hcompare]
  exact ⟨FirstBest.congr hgood, FirstBest.congr (fun c hc => (hgood c hc).symm)⟩

theorem assess_answer (hcandidate : PlainCandidate candidate) (hrequirement : PlainRequirement requirement) :
    ∃ reason, assessReceiptSubsumption candidate requirement = answer candidate reason := by
  by_cases hscopes : ScopesAscending candidate requirement
  · by_cases hobserved : Observed candidate requirement
    · by_cases hexpired : Expired candidate requirement
      · exact ⟨_, assess_expired (checked_plain hcandidate hrequirement hscopes) hobserved hexpired⟩
      · by_cases hrequired : RequiredAscending requirement
        · exact ⟨_, assess_reason (checked_plain hcandidate hrequirement hscopes).candidate
          (wellFormed_plain hrequirement hscopes.2 hrequired) hobserved hexpired⟩
        · exact ⟨_, assess_required hcandidate hrequirement hscopes hobserved hexpired hrequired⟩
    · exact ⟨_, assess_unobserved (checked_plain hcandidate hrequirement hscopes) hobserved⟩
  · exact ⟨_, assess_scopes hcandidate hrequirement hscopes⟩

theorem Reference.assess_answer (hcandidate : PlainCandidate candidate)
    (hrequirement : PlainRequirement requirement) :
    ∃ reason, Reference.assessReceiptSubsumption candidate requirement = answer candidate reason := by
  by_cases haccepted : Reference.Accepted candidate requirement
  · rw [Reference.assess_accepted hcandidate hrequirement haccepted]
    split_ifs
    · exact ⟨_, rfl⟩
    · exact ⟨_, rfl⟩
    · exact ⟨_, rfl⟩
  · exact ⟨_, Reference.assess_rejected hcandidate hrequirement haccepted⟩

section Selection

variable {localeCompare : String → String → Int} {collationKey : String → κ} {candidates : List (ReceiptCandidate T)}
  {requirement : ReceiptRequirement}

theorem receipt_selectSubsumingReceipt (hlocale : Compares localeCompare collationKey) {good : ReceiptCandidate T → Prop}
    (hanswer : ∀ c ∈ candidates, ∃ reason, assessReceiptSubsumption c requirement = answer c reason)
    (hgood : ∀ c ∈ candidates, ((assessReceiptSubsumption c requirement).eligible = true ↔ good c))
    (best : ReceiptCandidate T) : (selectSubsumingReceipt localeCompare candidates requirement).receipt = some best
      ↔ FirstBest (receiptRank collationKey) good candidates best := by
  rw [← head?_eligible (compares_receipts hlocale) hanswer hgood]
  unfold selectSubsumingReceipt
  dsimp only
  cases (sortBy (compareReceipts localeCompare) _).head? with
  | none | some => exact Iff.rfl

theorem selected_runtime (hlocale : Compares localeCompare collationKey) (hcandidates : ∀ c ∈ candidates, PlainCandidate c)
    (hrequirement : PlainRequirement requirement) (hagree : ∀ c ∈ candidates, ¬ Diverges c requirement)
    (best : ReceiptCandidate T) : (selectSubsumingReceipt localeCompare candidates requirement).receipt = some best
      ↔ FirstBest (receiptRank collationKey) (Matches requirement) candidates best := by
  refine receipt_selectSubsumingReceipt hlocale (fun c hc => assess_answer (hcandidates c hc) hrequirement) (fun c hc => ?_) best
  rw [((assessed_iff (hcandidates c hc) hrequirement).mpr (hagree c hc)).1]
  exact eligible_iff (hcandidates c hc) hrequirement

theorem selected_reference (hcandidates : ∀ c ∈ candidates, PlainCandidate c) (hrequirement : PlainRequirement requirement)
    (best : ReceiptCandidate T) : (Reference.selectSubsumingReceipt candidates requirement).receipt = some best
      ↔ FirstBest (fun c => codePoints c.receiptId) (Matches requirement) candidates best := by
  rw [← head?_eligible compares_ids (fun c hc => Reference.assess_answer (hcandidates c hc) hrequirement)
    (fun c hc => eligible_iff (hcandidates c hc) hrequirement)]
  unfold Reference.selectSubsumingReceipt
  dsimp only
  cases (sortBy (fun left right : ReceiptCandidate T => Reference.comparePoints left.receiptId right.receiptId) _).head? with
  | none | some => exact Iff.rfl

theorem selected_iff (hlocale : Compares localeCompare collationKey) (hcandidates : ∀ c ∈ candidates, PlainCandidate c)
    (hrequirement : PlainRequirement requirement) (hagree : ∀ c ∈ candidates, ¬ Diverges c requirement) :
    (selectSubsumingReceipt localeCompare candidates requirement).receipt.map ReceiptCandidate.receiptId
        = (Reference.selectSubsumingReceipt candidates requirement).receipt.map ReceiptCandidate.receiptId
      ↔ ∀ best, FirstBest (receiptRank collationKey) (Matches requirement) candidates best →
          ∀ candidate ∈ candidates, Matches requirement candidate →
            codePoints best.receiptId ≤ codePoints candidate.receiptId := by
  have hruntime := selected_runtime hlocale hcandidates hrequirement hagree
  have hreference := selected_reference hcandidates hrequirement
  by_cases hmatch : ∃ c ∈ candidates, Matches requirement c
  · obtain ⟨c, hc, hmatches⟩ := hmatch
    obtain ⟨first, hfirst⟩ : ∃ best, FirstBest (receiptRank collationKey) (Matches requirement) candidates best :=
      exists_firstBest hc hmatches
    obtain ⟨least, hleast⟩ : ∃ best, FirstBest (fun c => codePoints c.receiptId) (Matches requirement) candidates best :=
      exists_firstBest hc hmatches
    rw [(hruntime first).mpr hfirst, (hreference least).mpr hleast, Option.map_some, Option.map_some, Option.some.injEq]
    constructor
    · intro hid best hbest candidate hcandidate hmatches
      have heq : some first = some best := by rw [← (hruntime first).mpr hfirst, (hruntime best).mpr hbest]
      rw [← Option.some.inj heq, hid]
      exact hleast.least hcandidate hmatches
    · intro hall
      obtain ⟨hmem, hmatches⟩ := hleast.mem
      obtain ⟨hmem', hmatches'⟩ := hfirst.mem
      exact codePoints_injective (le_antisymm (hall first hfirst least hmem hmatches) (hleast.least hmem' hmatches'))
  · have hnone : ∀ {receipt : Option (ReceiptCandidate T)} {key : Type} [LinearOrder key] {rank : ReceiptCandidate T → key},
        (∀ best, receipt = some best ↔ FirstBest rank (Matches requirement) candidates best) → receipt = none := by
      intro receipt key _ rank hreceipt
      cases receipt with
      | none => rfl
      | some best =>
        have hmem := ((hreceipt best).mp rfl).mem
        exact absurd ⟨best, hmem⟩ hmatch
    rw [hnone hruntime, hnone hreference]
    exact iff_of_true rfl fun best hbest => absurd ⟨best, hbest.mem⟩ hmatch

/-- The runtime and the reference agree on plain inputs when no reasons differ and both rank the same id first. -/
theorem receipts_agree_iff (hlocale : Compares localeCompare collationKey) (hcandidates : ∀ c ∈ candidates, PlainCandidate c)
    (hrequirement : PlainRequirement requirement) :
    Agree localeCompare candidates requirement ↔ Coincide collationKey candidates requirement := by
  constructor
  · intro hagree
    have hassessed : ∀ c ∈ candidates, ¬ Diverges c requirement :=
      fun c hc => (assessed_iff (hcandidates c hc) hrequirement).mp (hagree.assessed c hc)
    exact ⟨hassessed, (selected_iff hlocale hcandidates hrequirement hassessed).mp hagree.selected⟩
  · intro ⟨hassessed, hselected⟩
    exact ⟨fun c hc => (assessed_iff (hcandidates c hc) hrequirement).mpr (hassessed c hc),
      (selected_iff hlocale hcandidates hrequirement hassessed).mpr hselected⟩

end Selection

def sampleScope : ReceiptScope :=
  { tenantId := "tenant", resourceId := "resource", incarnationId := "incarnation", versionScheme := "etag",
    versionToken := "v1", validatorId := "validator", authorizationContextDigest := "auth", policyDigest := "policy",
    queryDigest := "query", scopes := ["read", "write"], changeSetDigest := none, causalFrontier := ["f1"],
    queryFamily := "family", queryParts := ["p1", "p2"] }

def sampleMinute (minute : Nat) : DateParts := ⟨2026, 1, 1, 0, minute, 0, 0, (1, 0, 0)⟩

def sampleReceipt (receiptId : String) (minute : Nat) : ReceiptCandidate Unit :=
  { receiptId := receiptId, scope := sampleScope, observedAt := utcText (sampleMinute minute),
    expiresAt := utcText (sampleMinute 59), value := () }

def sampleRequirement : ReceiptRequirement :=
  { scope := sampleScope, requiredQueryParts := ["p1"], requiredScopes := ["read"], requiredFrontier := ["f1"],
    now := utcText (sampleMinute 30) }

theorem utcTimestamp_sampleMinute {minute : Nat} (h : minute ≤ 59) : UtcTimestamp (utcText (sampleMinute minute)) :=
  ⟨_, ⟨by simp [sampleMinute], by simp [sampleMinute], by simp [sampleMinute, daysInMonth], by simp [sampleMinute], h,
    by simp [sampleMinute], by simp [sampleMinute], rfl⟩, rfl⟩

def isPlainText (text : String) : Bool := text.toList.all (fun c => decide (c.toNat < 128)) && Js.nonEmpty text

theorem plainText_of_check (h : isPlainText text = true) : PlainText text := by
  unfold isPlainText at h
  rw [Bool.and_eq_true, List.all_eq_true] at h
  exact ⟨fun c hc => of_decide_eq_true (h.1 c hc), h.2⟩

theorem plainTexts_of_check {texts : List String} (h : texts.all isPlainText = true) : ∀ text ∈ texts, PlainText text :=
  fun text htext => plainText_of_check (List.all_eq_true.mp h text htext)

theorem plainScope_sample : PlainScope sampleScope := by
  constructor
  · intro p hp
    have htexts : (sampleScope.texts.map Prod.snd).all isPlainText = true := by decide
    exact plainTexts_of_check htexts p.2 (List.mem_map_of_mem hp)
  · intro p hp value hvalue
    have hlists : (sampleScope.lists.flatMap Prod.snd).all isPlainText = true := by decide
    exact plainTexts_of_check hlists value (List.mem_flatMap.mpr ⟨p, hp, hvalue⟩)

theorem plainCandidate_sample {receiptId : String} {minute : Nat} (hid : PlainText receiptId) (hminute : minute ≤ 59) :
    PlainCandidate (sampleReceipt receiptId minute) :=
  ⟨hid, plainScope_sample, utcTimestamp_sampleMinute hminute, utcTimestamp_sampleMinute le_rfl⟩

theorem plainRequirement_sample : PlainRequirement sampleRequirement := by
  refine ⟨plainScope_sample, ?_, ?_, ?_, utcTimestamp_sampleMinute (by decide)⟩
  · exact plainTexts_of_check (by decide)
  · exact plainTexts_of_check (by decide)
  · exact plainTexts_of_check (by decide)

def sampleReceipts : List (ReceiptCandidate Unit) := [sampleReceipt "a" 1, sampleReceipt "b" 2]

theorem plainCandidates_sample : ∀ c ∈ sampleReceipts, PlainCandidate c := by
  unfold sampleReceipts
  simp only [List.forall_mem_cons]
  exact ⟨plainCandidate_sample (plainText_of_check (by decide)) (by decide),
    plainCandidate_sample (plainText_of_check (by decide)) (by decide), fun _ h => absurd h List.not_mem_nil⟩

theorem receipts_agree_iff_sample : Agree Reference.comparePoints sampleReceipts sampleRequirement
    ↔ Coincide codePoints sampleReceipts sampleRequirement :=
  receipts_agree_iff compares_points plainCandidates_sample plainRequirement_sample

/-- The runtime selects the receipt that was observed last, and the reference the one with the least id. -/
theorem not_receipts_agree : ¬ ∀ (candidates : List (ReceiptCandidate Unit)) (requirement : ReceiptRequirement),
    (∀ c ∈ candidates, PlainCandidate c) → PlainRequirement requirement →
    Agree Reference.comparePoints candidates requirement := by
  intro h
  have hselected := (h _ _ plainCandidates_sample plainRequirement_sample).selected
  revert hselected
  decide +kernel

end Premise.Next
