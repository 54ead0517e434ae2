import Premise.Control.Except
import Premise.Next.PythonPredicates

/-!
# Proofs: agreement on predicates

Both canonical texts are the text of the document with its keys in order, by code units in the runtime and by code
points in the reference. So they tell apart the same values, and they are the same when the orders agree on the keys.
-/

namespace Premise.Next.Predicates

open Collections Control Js Python

theorem portableItems_iff (items : List Json) : PortableItems items ↔ ∀ v ∈ items, Portable v := by
  induction items with
  | nil => simp [PortableItems]
  | cons v items ih => simp [PortableItems, ih]

theorem PortableNumber.eq_intCast {value : ℚ} (h : PortableNumber value) : value = value.num :=
  (Rat.coe_int_num_of_den_eq_one h.1).symm

mutual

theorem wellFormed_of_portable {v : Json} (h : Portable v) : v.WellFormed :=
  match v with
  | .null | .boolean _ | .string _ => trivial
  | .number value => by
    rw [Portable] at h
    rw [Json.WellFormed, h.eq_intCast]
    exact isDecimal_intCast _
  | .array items => by
    rw [Portable] at h
    rw [Json.WellFormed]
    exact wellFormedItems_of_portable h
  | .object fields => by
    rw [Portable] at h
    rw [Json.WellFormed]
    exact ⟨h.1, wellFormedFields_of_portable h.2⟩

theorem wellFormedItems_of_portable {items : List Json} (h : PortableItems items) : Json.WellFormedItems items :=
  match items with
  | [] => trivial
  | _ :: _ => ⟨wellFormed_of_portable h.1, wellFormedItems_of_portable h.2⟩

theorem wellFormedFields_of_portable {fields : List (String × Json)} (h : PortableFields fields) :
    Json.WellFormedFields fields :=
  match fields with
  | [] => trivial
  | (_, _) :: _ => ⟨wellFormed_of_portable h.1, wellFormedFields_of_portable h.2⟩

end

mutual

theorem canonical_eq (v : Json) : canonical v = (v.sortedBy UnitsLe).stringify :=
  match v with
  | .null | .boolean _ | .number _ | .string _ => rfl
  | .array items => by rw [canonical, Json.sortedBy, Json.stringify, Json.joinItems_eq, canonicalItems_eq items]
  | .object fields => by
    have hsort := sortByKeyOf_map (r := UnitsLe) Json.stringify (Json.sortedFieldsBy UnitsLe fields)
    rw [canonical, Json.sortedBy, Json.stringify, Json.joinFields_eq, canonicalFields_eq fields]
    change '{' :: ([','].intercalate ((sortByKeyOf UnitsLe _).map _) ++ ['}']) = _
    rw [hsort, List.map_map]
    rfl

theorem canonicalItems_eq (items : List Json) :
    canonicalItems items = (Json.sortedItemsBy UnitsLe items).map Json.stringify :=
  match items with
  | [] => rfl
  | v :: items => by rw [canonicalItems, Json.sortedItemsBy, List.map_cons, canonical_eq v, canonicalItems_eq items]

theorem canonicalFields_eq (fields : List (String × Json)) :
    canonicalFields fields = (Json.sortedFieldsBy UnitsLe fields).map (fun p => (p.1, p.2.stringify)) :=
  match fields with
  | [] => rfl
  | (k, v) :: fields => by
    rw [canonicalFields, Json.sortedFieldsBy, List.map_cons, canonical_eq v, canonicalFields_eq fields]

end

end Premise.Next.Predicates

namespace Premise.Next.Reference

open Collections Js Python Next.Predicates

theorem encodeChar_eq (c : Char) : encodeChar c = escapeChar c := by
  by_cases hsmall : c.toNat < 32
  · obtain ⟨n, rfl⟩ := char_small hsmall
    revert n
    decide +kernel
  · have hne : ∀ d : Char, d.toNat < 32 → c ≠ d := by
      rintro d hd rfl
      exact hsmall hd
    by_cases hquote : c = '"'
    · rw [hquote]
      decide +kernel
    by_cases hslash : c = '\\'
    · rw [hslash]
      decide +kernel
    have hquote' : c.toNat ≠ 0x22 := fun h => hquote (Char.toNat_inj.mp h)
    have hslash' : c.toNat ≠ 0x5C := fun h => hslash (Char.toNat_inj.mp h)
    have hnone : escapes.find? (fun p => p.1 = c.toNat) = none := by
      rw [List.find?_eq_none]
      intro p hp
      simp only [escapes, List.mem_cons, List.not_mem_nil, or_false] at hp
      rcases hp with rfl | rfl | rfl | rfl | rfl | rfl | rfl
      all_goals
        rw [decide_eq_true_eq]
        omega
    unfold encodeChar escapeChar
    have hbackspace : c.toNat ≠ 8 := by omega
    have hfeed : c.toNat ≠ 12 := by omega
    rw [hnone, if_neg hquote, if_neg hslash, if_neg hbackspace, if_neg hfeed, if_neg (hne '\n' (by decide)),
      if_neg (hne '\r' (by decide)), if_neg (hne '\t' (by decide))]

theorem encodeString_eq (value : String) : encodeString value = jsonString value := by
  unfold encodeString jsonString
  rw [funext encodeChar_eq]

theorem intRepr_eq {value : ℚ} (h : PortableNumber value) : intRepr value.num = numberText value := by
  rw [h.eq_intCast, numberText_intCast]
  · rw [Rat.num_intCast]
    rfl
  · exact lt_of_lt_of_le h.2 (by norm_num)

mutual

theorem canonical_eq {v : Json} (h : Portable v) : canonical v = (v.sortedBy PointsLe).stringify :=
  match v with
  | .null | .boolean true | .boolean false => rfl
  | .number value => intRepr_eq h
  | .string s => encodeString_eq s
  | .array items => by
    rw [Portable] at h
    rw [canonical, Json.sortedBy, Json.stringify, Json.joinItems_eq, canonicalItems_eq h]
  | .object fields => by
    rw [Portable] at h
    rw [canonical, Json.sortedBy, Json.stringify, Json.joinFields_eq, canonicalFields_eq h.2, sortByKeyOf_map, List.map_map]
    simp only [encodeString_eq]
    rfl

theorem canonicalItems_eq {items : List Json} (h : PortableItems items) :
    canonicalItems items = (Json.sortedItemsBy PointsLe items).map Json.stringify :=
  match items with
  | [] => rfl
  | v :: items => by rw [canonicalItems, Json.sortedItemsBy, List.map_cons, canonical_eq h.1, canonicalItems_eq h.2]

theorem canonicalFields_eq {fields : List (String × Json)} (h : PortableFields fields) :
    canonicalFields fields = (Json.sortedFieldsBy PointsLe fields).map (fun p => (p.1, p.2.stringify)) :=
  match fields with
  | [] => rfl
  | (k, v) :: fields => by
    rw [canonicalFields, Json.sortedFieldsBy, List.map_cons, canonical_eq h.1, canonicalFields_eq h.2]

end

end Premise.Next.Reference

namespace Premise.Next.Predicates

open Collections Control Js Python

theorem stringify_eq_iff {v w : Json} (hv : v.WellFormed) (hw : w.WellFormed) : v.stringify = w.stringify ↔ v = w := by
  refine ⟨fun h => ?_, fun h => by rw [h]⟩
  have hparse := parseJson_stringify hv
  rw [h, parseJson_stringify hw] at hparse
  exact (Option.some.inj hparse).symm

/-- Both canonical texts of a value are the same when the orders agree on its keys. -/
theorem canonical_eq_reference_iff {v : Json} (hv : Portable v) : canonical v = Reference.canonical v ↔ KeysCoincide v := by
  have hwellFormed := wellFormed_of_portable hv
  rw [canonical_eq, Reference.canonical_eq hv,
    stringify_eq_iff (Json.wellFormed_sortedBy _ hwellFormed) (Json.wellFormed_sortedBy _ hwellFormed),
    Json.sortedBy_eq_iff _ _ hwellFormed]
  rfl

theorem sameValue_eq {v w : Json} (hv : Portable v) (hw : Portable w) : sameValue v w = Reference.sameValue v w := by
  have hv' := wellFormed_of_portable hv
  have hw' := wellFormed_of_portable hw
  unfold sameValue Reference.sameValue
  rw [canonical_eq, canonical_eq, Reference.canonical_eq hv, Reference.canonical_eq hw, decide_eq_decide,
    stringify_eq_iff (Json.wellFormed_sortedBy _ hv') (Json.wellFormed_sortedBy _ hw'),
    stringify_eq_iff (Json.wellFormed_sortedBy _ hv') (Json.wellFormed_sortedBy _ hw')]
  exact ⟨Json.sortedBy_eq_of_sortedBy_eq _ _ hv' hw', Json.sortedBy_eq_of_sortedBy_eq _ _ hv' hw'⟩

variable {predicate : Predicate} {operator : PredicateOperator}

theorem validPredicate_ok (h : predicate.Valid) : validPredicate predicate = .ok () := by
  obtain ⟨operator, value⟩ := predicate
  cases operator with
  | exists_ =>
    cases value with
    | none => rfl
    | some value =>
      obtain ⟨b, rfl⟩ := h value rfl
      rfl
  | in_ =>
    obtain ⟨first, rest, rfl⟩ := h
    rfl
  | eq | neq =>
    obtain ⟨value, rfl⟩ := h
    rfl
  | gt | gte | lt | lte =>
    obtain ⟨value, rfl, ⟨number, rfl⟩ | ⟨text, rfl⟩⟩ := h
    · rfl
    · rfl

theorem valid_of_validPredicate (h : validPredicate predicate = .ok ()) : predicate.Valid := by
  obtain ⟨operator, value⟩ := predicate
  cases operator with
  | exists_ =>
    intro value hvalue
    obtain rfl := Option.mem_def.mp hvalue
    cases value with
    | boolean b => exact ⟨b, rfl⟩
    | null | number _ | string _ | array _ | object _ => cases h
  | in_ =>
    cases value with
    | none => cases h
    | some value =>
      cases value with
      | array items =>
        cases items with
        | nil => cases h
        | cons first rest => exact ⟨first, rest, rfl⟩
      | null | boolean _ | number _ | string _ | object _ => cases h
  | eq | neq =>
    cases value with
    | none => cases h
    | some value => exact ⟨value, rfl⟩
  | gt | gte | lt | lte =>
    cases value with
    | none => cases h
    | some value =>
      cases value with
      | number number => exact ⟨_, rfl, .inl ⟨number, rfl⟩⟩
      | string text => exact ⟨_, rfl, .inr ⟨text, rfl⟩⟩
      | null | boolean _ | array _ | object _ => cases h

theorem validPredicate_error (h : ¬ predicate.Valid) : ∃ e, validPredicate predicate = .error e := by
  cases hvalid : validPredicate predicate with
  | error e => exact ⟨e, rfl⟩
  | ok _ => exact absurd (valid_of_validPredicate hvalid) h

theorem reference_validPredicate (predicate : Predicate) :
    Reference.validPredicate predicate = (validPredicate predicate).isOk := by
  obtain ⟨operator, value⟩ := predicate
  rcases value with _ | _ | b | number | text | (_ | ⟨first, rest⟩) | fields
  all_goals
    cases operator
    all_goals rfl

theorem reference_validPredicate_iff (predicate : Predicate) :
    Reference.validPredicate predicate = true ↔ predicate.Valid := by
  rw [reference_validPredicate]
  by_cases hvalid : predicate.Valid
  · rw [validPredicate_ok hvalid]
    exact iff_of_true rfl hvalid
  · obtain ⟨e, he⟩ := validPredicate_error hvalid
    rw [he]
    exact iff_of_false Bool.false_ne_true hvalid

/-! ## Evaluation -/

theorem compare_eq_iff {α κ : Type} [LinearOrder κ] {key key' : α → κ} {a b : α}
    (hkeys : key a = key b ↔ key' a = key' b) (hoperator : operator.isOrdered = true) :
    operator.compare (key a) (key b) = operator.compare (key' a) (key' b) ↔ (key a ≤ key b ↔ key' a ≤ key' b) := by
  have hreverse : (key b ≤ key a ↔ key' b ≤ key' a) ↔ (key a ≤ key b ↔ key' a ≤ key' b) := by
    by_cases heq : key a = key b
    · have heq' := hkeys.mp heq
      exact iff_of_true (iff_of_true heq.ge heq'.ge) (iff_of_true heq.le heq'.le)
    · have hne' := mt hkeys.mpr heq
      rw [← lt_iff_le_and_ne.trans (and_iff_left (Ne.symm heq)), ← lt_iff_le_and_ne.trans (and_iff_left (Ne.symm hne')),
        ← not_le, ← not_le, not_iff_not]
  unfold PredicateOperator.compare
  cases operator with
  | gt =>
    rw [if_pos rfl, if_pos rfl, decide_eq_decide, ← not_le, ← not_le, not_iff_not]
  | gte =>
    rw [if_neg (by decide), if_pos rfl, if_neg (by decide), if_pos rfl, decide_eq_decide, hreverse]
  | lt =>
    rw [if_neg (by decide), if_neg (by decide), if_pos rfl, if_neg (by decide), if_neg (by decide), if_pos rfl,
      decide_eq_decide, ← not_le, ← not_le, not_iff_not, hreverse]
  | lte =>
    rw [if_neg (by decide), if_neg (by decide), if_neg (by decide), if_neg (by decide), if_neg (by decide),
      if_neg (by decide), decide_eq_decide]
  | eq | neq | in_ | exists_ => cases hoperator

theorem units_eq_iff_points_eq (a b : String) : codeUnits a = codeUnits b ↔ codePoints a = codePoints b :=
  ⟨fun h => by rw [codeUnits_injective h], fun h => by rw [codePoints_injective h]⟩

theorem evaluateValue_ordered_iff (value expected : Json) (hoperator : operator.isOrdered = true) :
    evaluateValue value operator expected = Reference.evaluateValue value operator expected
      ↔ ∀ text text', value = .string text → expected = .string text' → (UnitsLe text text' ↔ PointsLe text text') := by
  by_cases hstrings : ∃ text text', value = .string text ∧ expected = .string text'
  · obtain ⟨text, text', rfl, rfl⟩ := hstrings
    have hcompare := compare_eq_iff (units_eq_iff_points_eq text text') hoperator
    have heval : evaluateValue (.string text) operator (.string text')
        = .answer (operator.compare (codeUnits text) (codeUnits text')) := by
      cases operator with
      | gt | gte | lt | lte => rfl
      | eq | neq | in_ | exists_ => cases hoperator
    have heval' : Reference.evaluateValue (.string text) operator (.string text')
        = .answer (operator.compare (codePoints text) (codePoints text')) := by
      cases operator with
      | gt | gte | lt | lte => rfl
      | eq | neq | in_ | exists_ => cases hoperator
    rw [heval, heval', PredicateEvaluation.answer.injEq, hcompare]
    refine ⟨fun h t t' ht ht' => ?_, fun h => h text text' rfl rfl⟩
    rw [← Json.string.inj ht, ← Json.string.inj ht']
    exact h
  · refine iff_of_true ?_ fun text text' h h' => absurd ⟨text, text', h, h'⟩ hstrings
    cases operator with
    | gt | gte | lt | lte =>
      cases value with
      | string text =>
        cases expected with
        | string text' => exact absurd ⟨text, text', rfl, rfl⟩ hstrings
        | null | boolean _ | number _ | array _ | object _ => rfl
      | number number =>
        cases expected with
        | null | boolean _ | number _ | string _ | array _ | object _ => rfl
      | null | boolean _ | array _ | object _ => rfl
    | eq | neq | in_ | exists_ => cases hoperator

theorem evaluateValue_iff {value expected : Json} (hvalue : Portable value) (hexpected : Portable expected)
    (hoperator : operator ≠ .exists_) :
    evaluateValue value operator expected = Reference.evaluateValue value operator expected
      ↔ (operator.isOrdered = true → ∀ text text', value = .string text → expected = .string text' →
          (UnitsLe text text' ↔ PointsLe text text')) := by
  cases operator with
  | gt | gte | lt | lte =>
    rw [evaluateValue_ordered_iff _ _ rfl]
    exact ⟨fun h _ => h, fun h => h rfl⟩
  | eq =>
    have hsame := sameValue_eq hvalue hexpected
    exact iff_of_true (congrArg PredicateEvaluation.answer hsame) fun h => nomatch h
  | neq =>
    have hsame := sameValue_eq hvalue hexpected
    exact iff_of_true (congrArg (fun same => PredicateEvaluation.answer (!same)) hsame) (fun h => nomatch h)
  | in_ =>
    refine iff_of_true ?_ fun h => nomatch h
    cases expected with
    | array items =>
      rw [Portable, portableItems_iff] at hexpected
      refine congrArg PredicateEvaluation.answer ?_
      rw [Bool.eq_iff_iff, List.any_eq_true, List.any_eq_true]
      refine exists_congr fun item => and_congr_right (fun hitem => ?_)
      rw [sameValue_eq (hexpected item hitem) hvalue]
    | null | boolean _ | number _ | string _ | object _ => rfl
  | exists_ => exact absurd rfl hoperator

theorem present_eq (value : Option Json) : present value = (value.isSome && decide (value ≠ some .null)) := by
  rcases value with _ | _ | _ | _ | _ | _ | _
  all_goals rfl

theorem evaluatePredicate_iff {value : Option Json} (hvalue : ∀ v ∈ value, Portable v)
    (hexpected : ∀ v ∈ predicate.value, Portable v) :
    evaluatePredicate value predicate = Reference.evaluatePredicate value predicate ↔ OrdersCoincide predicate value := by
  have hreference := reference_validPredicate_iff predicate
  unfold evaluatePredicate Reference.evaluatePredicate
  by_cases hvalid : predicate.Valid
  · rw [validPredicate_ok hvalid, hreference.mpr hvalid]
    have hadmitted : ¬ (!true) = true := by decide
    rw [if_neg hadmitted]
    by_cases hexists : predicate.operator = .exists_
    · rw [if_pos hexists, if_pos hexists, present_eq]
      unfold OrdersCoincide
      rw [hexists]
      exact iff_of_true rfl fun h => nomatch h
    · rw [if_neg hexists, if_neg hexists]
      unfold OrdersCoincide
      cases value with
      | none => exact iff_of_true rfl (fun _ _ _ h => nomatch h)
      | some value =>
        cases hpredicate : predicate.value with
        | none => exact iff_of_true rfl (fun _ _ _ _ h => nomatch h)
        | some expected =>
          rw [evaluateValue_iff (hvalue _ rfl) (hexpected _ hpredicate) hexists]
          simp only [Option.some.injEq]
  · obtain ⟨e, he⟩ := validPredicate_error hvalid
    have hrefused : (!Reference.validPredicate predicate) = true := by
      rw [Bool.not_eq_true']
      exact Bool.eq_false_iff.mpr (mt hreference.mp hvalid)
    rw [he, if_pos hrefused]
    refine iff_of_true rfl fun hordered text expected _ hpredicate => absurd ?_ hvalid
    obtain ⟨operator, value⟩ := predicate
    obtain rfl : value = some (.string expected) := hpredicate
    cases operator with
    | gt | gte | lt | lte => exact ⟨_, rfl, .inr ⟨expected, rfl⟩⟩
    | eq | neq | in_ | exists_ => cases hordered

/-! ## Fingerprints -/

section Fingerprints

variable {sha256 : String → String} {dependency : PredicateDependency}

theorem fingerprint_ok (htexts : ∀ text ∈ dependency.texts, Js.nonEmpty text = true) (hvalid : dependency.predicate.Valid) :
    predicateSemanticFingerprint sha256 dependency
      = .ok ("sha256:" ++ sha256 (String.ofList (canonical (identity dependency)))) := by
  unfold PredicateDependency.texts at htexts
  simp only [List.forall_mem_cons] at htexts
  obtain ⟨htenant, hresource, hincarnation, haspect, -⟩ := htexts
  have hrequired : ∀ {value : String} (name : String), Js.nonEmpty value = true → required value name = .ok value :=
    fun _ h => if_pos h
  unfold predicateSemanticFingerprint
  rw [hrequired _ htenant, ok_bind, hrequired _ hresource, ok_bind, hrequired _ hincarnation, ok_bind,
    hrequired _ haspect, ok_bind, validPredicate_ok hvalid, ok_bind]
  rfl

theorem of_fingerprint_ok {fingerprint : String} (h : predicateSemanticFingerprint sha256 dependency = .ok fingerprint) :
    (∀ text ∈ dependency.texts, Js.nonEmpty text = true) ∧ dependency.predicate.Valid := by
  have hrequired : ∀ {value name result : String}, required value name = .ok result → Js.nonEmpty value = true := by
    intro value name result h
    unfold required at h
    split_ifs at h with hnonEmpty
    exact hnonEmpty
  unfold predicateSemanticFingerprint at h
  obtain ⟨tenant, htenant, h⟩ := of_bind_ok h
  obtain ⟨resource, hresource, h⟩ := of_bind_ok h
  obtain ⟨incarnation, hincarnation, h⟩ := of_bind_ok h
  obtain ⟨aspect, haspect, h⟩ := of_bind_ok h
  obtain ⟨⟨⟩, hvalid, -⟩ := of_bind_ok h
  refine ⟨?_, valid_of_validPredicate hvalid⟩
  unfold PredicateDependency.texts
  simp only [List.forall_mem_cons]
  exact ⟨hrequired htenant, hrequired hresource, hrequired hincarnation, hrequired haspect,
    fun _ h => absurd h List.not_mem_nil⟩

theorem reference_fingerprint_ok (htexts : ∀ text ∈ dependency.texts, Python.nonEmpty text = true)
    (hvalid : dependency.predicate.Valid) :
    Reference.predicateSemanticFingerprint sha256 dependency
      = .ok ("sha256:" ++ sha256 (String.ofList (Reference.canonical (identity dependency)))) := by
  unfold PredicateDependency.texts at htexts
  simp only [List.forall_mem_cons] at htexts
  obtain ⟨htenant, hresource, hincarnation, haspect, -⟩ := htexts
  have hrequired : ∀ {value : String} (name : String), Python.nonEmpty value = true →
      Reference.requiredText value name = .ok value := fun _ h => if_pos h
  unfold Reference.predicateSemanticFingerprint
  rw [hrequired _ htenant, ok_bind, hrequired _ hresource, ok_bind, hrequired _ hincarnation, ok_bind,
    hrequired _ haspect, ok_bind, (reference_validPredicate_iff _).mpr hvalid]
  rfl

theorem of_reference_fingerprint_ok {fingerprint : String}
    (h : Reference.predicateSemanticFingerprint sha256 dependency = .ok fingerprint) :
    (∀ text ∈ dependency.texts, Python.nonEmpty text = true) ∧ dependency.predicate.Valid := by
  have hrequired : ∀ {value name result : String}, Reference.requiredText value name = .ok result →
      Python.nonEmpty value = true := by
    intro value name result h
    unfold Reference.requiredText at h
    split_ifs at h with hnonEmpty
    exact hnonEmpty
  unfold Reference.predicateSemanticFingerprint at h
  obtain ⟨tenant, htenant, h⟩ := of_bind_ok h
  obtain ⟨resource, hresource, h⟩ := of_bind_ok h
  obtain ⟨incarnation, hincarnation, h⟩ := of_bind_ok h
  obtain ⟨aspect, haspect, h⟩ := of_bind_ok h
  obtain ⟨hvalid, -⟩ := of_check_ok h
  refine ⟨?_, (reference_validPredicate_iff _).mp (by simpa using hvalid)⟩
  unfold PredicateDependency.texts
  simp only [List.forall_mem_cons]
  exact ⟨hrequired htenant, hrequired hresource, hrequired hincarnation, hrequired haspect,
    fun _ h => absurd h List.not_mem_nil⟩

theorem portable_identity (h : ∀ v ∈ dependency.predicate.value, Portable v) : Portable (identity dependency) := by
  have hpredicate : Portable dependency.predicate.json := by
    unfold Predicate.json
    rw [Portable]
    cases hvalue : dependency.predicate.value with
    | none => exact ⟨List.nodup_singleton "operator", trivial, trivial⟩
    | some value =>
      have hkeys : ["operator", "value"].Nodup := by decide
      exact ⟨hkeys, trivial, h _ hvalue, trivial⟩
  have hkeys : ["domain", "tenantId", "resourceId", "incarnationId", "aspect", "predicate"].Nodup := by decide
  unfold identity
  rw [Portable]
  exact ⟨hkeys, trivial, trivial, trivial, trivial, trivial, hpredicate, trivial⟩

theorem keysCoincide_identity : KeysCoincide (identity dependency)
    ↔ ∀ value ∈ dependency.predicate.value, KeysCoincide value := by
  have hkeys : ∀ k ∈ ["domain", "tenantId", "resourceId", "incarnationId", "aspect", "predicate", "operator", "value"],
      ∀ k' ∈ ["domain", "tenantId", "resourceId", "incarnationId", "aspect", "predicate", "operator", "value"],
      (UnitsLe k k' ↔ PointsLe k k') := by decide +kernel
  have hpredicate : KeysCoincide dependency.predicate.json ↔ ∀ value ∈ dependency.predicate.value, KeysCoincide value := by
    unfold KeysCoincide Predicate.json
    rw [Json.KeysAlike]
    cases hvalue : dependency.predicate.value with
    | none =>
      refine iff_of_true ⟨fun p hp q hq => hkeys _ ?_ _ ?_, trivial, trivial⟩ (fun value h => nomatch h)
      · simp only [Json.optional, Option.toList_none, List.map_nil, List.mem_singleton] at hp
        simp [hp]
      · simp only [Json.optional, Option.toList_none, List.map_nil, List.mem_singleton] at hq
        simp [hq]
    | some value =>
      constructor
      · intro h v hv
        cases hv
        exact h.2.2.1
      · intro h
        refine ⟨fun p hp q hq => hkeys _ ?_ _ ?_, trivial, h value rfl, trivial⟩
        · simp only [Json.optional, Option.toList_some, List.map_cons, List.map_nil, List.mem_cons, List.not_mem_nil,
            or_false] at hp
          rcases hp with rfl | rfl
          · simp
          · simp
        · simp only [Json.optional, Option.toList_some, List.map_cons, List.map_nil, List.mem_cons, List.not_mem_nil,
            or_false] at hq
          rcases hq with rfl | rfl
          · simp
          · simp
  rw [← hpredicate]
  unfold KeysCoincide identity
  rw [Json.KeysAlike]
  refine ⟨fun h => h.2.2.2.2.2.2.1, fun h => ⟨fun p hp q hq => hkeys _ ?_ _ ?_, trivial, trivial, trivial, trivial, trivial, h, trivial⟩⟩
  · have hmem := List.mem_map_of_mem (f := Prod.fst) hp
    simp only [List.map_cons, List.map_nil, List.mem_cons, List.not_mem_nil, or_false] at hmem
    simp only [List.mem_cons, List.not_mem_nil, or_false]
    tauto
  · have hmem := List.mem_map_of_mem (f := Prod.fst) hq
    simp only [List.map_cons, List.map_nil, List.mem_cons, List.not_mem_nil, or_false] at hmem
    simp only [List.mem_cons, List.not_mem_nil, or_false]
    tauto

theorem fingerprint_iff (hsha256 : Function.Injective sha256) (hexpected : ∀ v ∈ dependency.predicate.value, Portable v) :
    (predicateSemanticFingerprint sha256 dependency).toOption
        = (Reference.predicateSemanticFingerprint sha256 dependency).toOption ↔ FingerprintsCoincide dependency := by
  have hblank : ∀ test : String → Bool, (∃ text ∈ dependency.texts, test text = false)
      ↔ ¬ ∀ text ∈ dependency.texts, test text = true := by
    intro test
    simp only [not_forall, Bool.not_eq_true, exists_prop]
  have hrefused : ¬ ((∀ text ∈ dependency.texts, Js.nonEmpty text = true) ∧ dependency.predicate.Valid) →
      (predicateSemanticFingerprint sha256 dependency).toOption = none := by
    intro h
    cases hfingerprint : predicateSemanticFingerprint sha256 dependency with
    | error e => rfl
    | ok fingerprint => exact absurd (of_fingerprint_ok hfingerprint) h
  have hrefused' : ¬ ((∀ text ∈ dependency.texts, Python.nonEmpty text = true) ∧ dependency.predicate.Valid) →
      (Reference.predicateSemanticFingerprint sha256 dependency).toOption = none := by
    intro h
    cases hfingerprint : Reference.predicateSemanticFingerprint sha256 dependency with
    | error e => rfl
    | ok fingerprint => exact absurd (of_reference_fingerprint_ok hfingerprint) h
  unfold FingerprintsCoincide
  rw [hblank, hblank]
  by_cases hvalid : dependency.predicate.Valid
  · by_cases htexts : ∀ text ∈ dependency.texts, Js.nonEmpty text = true
    · rw [fingerprint_ok htexts hvalid]
      by_cases htexts' : ∀ text ∈ dependency.texts, Python.nonEmpty text = true
      · have hdigest : ∀ text text' : List Char, ("sha256:" ++ sha256 (String.ofList text)
            = "sha256:" ++ sha256 (String.ofList text')) ↔ text = text' := by
          intro text text'
          refine ⟨fun h => ?_, fun h => by rw [h]⟩
          have hlist := congrArg String.toList h
          rw [String.toList_append, String.toList_append, List.append_right_inj, String.toList_inj] at hlist
          exact String.ofList_injective (hsha256 hlist)
        rw [reference_fingerprint_ok htexts' hvalid]
        change some _ = some _ ↔ _
        rw [Option.some.injEq, hdigest, canonical_eq_reference_iff (portable_identity hexpected), keysCoincide_identity]
        have hall : ∀ text ∈ dependency.texts, Js.nonEmpty text = true ∧ Python.nonEmpty text = true :=
          fun text htext => ⟨htexts text htext, htexts' text htext⟩
        tauto
      · rw [hrefused' (fun h => htexts' h.1)]
        refine iff_of_false (fun h => nomatch h) ?_
        rintro (h | h | h)
        · exact h hvalid
        · exact h.1 htexts
        · exact htexts' fun text htext => (h.1 text htext).2
    · rw [hrefused (fun h => htexts h.1)]
      by_cases htexts' : ∀ text ∈ dependency.texts, Python.nonEmpty text = true
      · rw [reference_fingerprint_ok htexts' hvalid]
        refine iff_of_false (fun h => nomatch h) ?_
        rintro (h | h | h)
        · exact h hvalid
        · exact h.2 htexts'
        · exact htexts fun text htext => (h.1 text htext).1
      · rw [hrefused' (fun h => htexts' h.1)]
        exact iff_of_true rfl (.inr (.inl ⟨htexts, htexts'⟩))
  · rw [hrefused (fun h => hvalid h.2), hrefused' (fun h => hvalid h.2)]
    exact iff_of_true rfl (.inl hvalid)

end Fingerprints

section Classification

variable {sha256 : String → String} {dependency : PredicateDependency} {previous current : Option Json}

/-- The dependency has the version and the fingerprint that it should have. -/
def Sealed (fingerprint : Option String) (dependency : PredicateDependency) : Prop :=
  dependency.specVersion = predicateDependencySpecVersion ∧ fingerprint = some dependency.semanticFingerprint

theorem classify_sealed (h : Sealed (predicateSemanticFingerprint sha256 dependency).toOption dependency) :
    classifyPredicateChange sha256 dependency previous current
      = if evaluatePredicate previous dependency.predicate ≠ .answer true then .unknown
        else match evaluatePredicate current dependency.predicate with
          | .answer true => .preserved
          | .answer false => .invalidated
          | .unknown => .unknown := by
  obtain ⟨hversion, hfingerprint⟩ := h
  unfold classifyPredicateChange
  rw [if_neg (not_not_intro hversion)]
  cases hok : predicateSemanticFingerprint sha256 dependency with
  | error e =>
    rw [hok] at hfingerprint
    cases hfingerprint
  | ok fingerprint =>
    rw [hok] at hfingerprint
    exact if_neg (not_not_intro (Option.some.inj hfingerprint).symm)

theorem classify_unsealed (h : ¬ Sealed (predicateSemanticFingerprint sha256 dependency).toOption dependency) :
    classifyPredicateChange sha256 dependency previous current = .unknown := by
  unfold classifyPredicateChange
  by_cases hversion : dependency.specVersion = predicateDependencySpecVersion
  · rw [if_neg (not_not_intro hversion)]
    cases hok : predicateSemanticFingerprint sha256 dependency with
    | error e => rfl
    | ok fingerprint =>
      rw [hok] at h
      exact if_pos fun heq => h ⟨hversion, congrArg some heq.symm⟩
  · exact if_pos hversion

theorem validDependency_iff : Reference.validDependency sha256 dependency = true
    ↔ Sealed (Reference.predicateSemanticFingerprint sha256 dependency).toOption dependency := by
  unfold Reference.validDependency Sealed
  split_ifs with hversion
  · exact iff_of_false not_false fun h => hversion h.1
  · cases hok : Reference.predicateSemanticFingerprint sha256 dependency with
    | error e => exact iff_of_false Bool.false_ne_true (fun h => nomatch h.2)
    | ok fingerprint =>
      change decide (dependency.semanticFingerprint = fingerprint) = true ↔ _ ∧ some fingerprint = some _
      rw [decide_eq_true_eq, Option.some.injEq]
      exact ⟨fun h => ⟨not_not.mp hversion, h.symm⟩, fun h => h.2.symm⟩

theorem classify_eq (hfingerprint : (predicateSemanticFingerprint sha256 dependency).toOption
      = (Reference.predicateSemanticFingerprint sha256 dependency).toOption)
    (hprevious : evaluatePredicate previous dependency.predicate = Reference.evaluatePredicate previous dependency.predicate)
    (hcurrent : evaluatePredicate current dependency.predicate = Reference.evaluatePredicate current dependency.predicate) :
    classifyPredicateChange sha256 dependency previous current
      = Reference.classifyPredicateChange sha256 dependency previous current := by
  have hreference : Reference.validDependency sha256 dependency = true ↔ _ := validDependency_iff
  unfold Reference.classifyPredicateChange
  rw [← hfingerprint] at hreference
  by_cases hsealed : Sealed (predicateSemanticFingerprint sha256 dependency).toOption dependency
  · have hadmitted : ¬ (!Reference.validDependency sha256 dependency) = true := by
      rw [hreference.mpr hsealed]
      decide
    rw [classify_sealed hsealed, if_neg hadmitted, hprevious, hcurrent]
    rcases Reference.evaluatePredicate current dependency.predicate with (_ | _) | _
    all_goals rfl
  · have hrefused : (!Reference.validDependency sha256 dependency) = true := by
      rw [Bool.not_eq_true']
      exact Bool.eq_false_iff.mpr (mt hreference.mp hsealed)
    rw [classify_unsealed hsealed, if_pos hrefused]

end Classification

/-- The value is at least `expected`. -/
def sampleDependency (expected : String) : PredicateDependency :=
  { specVersion := predicateDependencySpecVersion, tenantId := "tenant", resourceId := "inventory", incarnationId := "one",
    aspect := "name", predicate := { operator := .gte, value := some (.string expected) },
    semanticFingerprint := "sha256:0" }

theorem portable_string {text : String} : ∀ v ∈ some (Json.string text), Portable v := by
  intro v hv
  cases hv
  trivial

end Premise.Next.Predicates
