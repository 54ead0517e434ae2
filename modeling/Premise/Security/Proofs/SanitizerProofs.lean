import Premise.Security.Sanitizer

/-!
# Proofs: secrets in sanitized values

What stands between markers has stood together in the text before. So a secret that is left in a redacted text takes
in a part of a marker. What is not redacted is left as it is.
-/

namespace Premise.Security

open Collections Js

/-! ## Replacing -/

section Replacing

variable {secret marker : List Char} {l occurrence : List Marked}

def Plain (l : List Marked) : Prop := ∀ c ∈ l, c.2 = false

theorem map_fst_replaceMarked (secret marker : List Char) (skipped : Nat) (l : List Marked) :
    (replaceMarked secret marker skipped l).map Prod.fst = replaceAll secret marker skipped (l.map Prod.fst) := by
  have hmarker : (marker.map (fun c => (c, true))).map Prod.fst = marker := by
    rw [List.map_map]
    exact List.map_id marker
  induction l generalizing skipped with
  | nil => cases skipped <;> rfl
  | cons c l ih =>
    cases skipped with
    | succ skipped => exact ih skipped
    | zero =>
      unfold replaceMarked
      rw [List.map_cons, replaceAll]
      split_ifs
      · rw [List.map_append, hmarker, ih]
      · rw [List.map_cons, ih]

theorem eq_nil_of_prefix_marker (hmarker : marker ≠ []) (hplain : Plain occurrence)
    (h : occurrence <+: marker.map (fun c => (c, true)) ++ l) : occurrence = [] := by
  cases occurrence with
  | nil => rfl
  | cons c occurrence =>
    obtain ⟨m, marker, rfl⟩ := List.exists_cons_of_ne_nil hmarker
    rw [List.map_cons, List.cons_append, List.cons_prefix_cons] at h
    have hfalse := hplain c List.mem_cons_self
    rw [h.1] at hfalse
    cases hfalse

theorem infix_of_marker (hplain : Plain occurrence) (hne : occurrence ≠ []) :
    ∀ {marker : List Char}, occurrence <:+: marker.map (fun c => (c, true)) ++ l → occurrence <:+: l
  | [], h => h
  | m :: marker, h => by
    rw [List.map_cons, List.cons_append, List.infix_cons_iff] at h
    rcases h with hprefix | hinfix
    · have hstart := eq_nil_of_prefix_marker (List.cons_ne_nil m marker) hplain hprefix
      exact absurd hstart hne
    · exact infix_of_marker hplain hne hinfix

theorem prefix_of_replaceMarked (hmarker : marker ≠ []) (hplain : Plain occurrence)
    (h : occurrence <+: replaceMarked secret marker 0 l) : occurrence <+: l := by
  induction l generalizing occurrence with
  | nil => exact h
  | cons c l ih =>
    unfold replaceMarked at h
    split_ifs at h
    · rw [eq_nil_of_prefix_marker hmarker hplain h]
      exact List.nil_prefix
    · cases occurrence with
      | nil => exact List.nil_prefix
      | cons d occurrence =>
        rw [List.cons_prefix_cons] at h ⊢
        exact ⟨h.1, ih (fun c hc => hplain c (List.mem_cons_of_mem _ hc)) h.2⟩

theorem infix_of_replaceMarked (hmarker : marker ≠ []) (hplain : Plain occurrence) (hne : occurrence ≠ [])
    {skipped : Nat} (h : occurrence <:+: replaceMarked secret marker skipped l) : occurrence <:+: l := by
  induction l generalizing skipped with
  | nil => cases skipped <;> exact h
  | cons c l ih =>
    cases skipped with
    | succ skipped => exact (ih h).trans (List.suffix_cons c l).isInfix
    | zero =>
      have hstart : replaceMarked secret marker 0 (c :: l) = c :: replaceMarked secret marker 0 l →
          occurrence <:+: c :: l := by
        intro heq
        rw [heq, List.infix_cons_iff] at h
        rcases h with hprefix | hinfix
        · rw [← heq] at hprefix
          exact (prefix_of_replaceMarked hmarker hplain hprefix).isInfix
        · exact (ih hinfix).trans (List.suffix_cons c l).isInfix
      by_cases hmatch : secret.isPrefixOf ((c :: l).map Prod.fst) = true
      · unfold replaceMarked at h
        rw [if_pos hmatch] at h
        exact (ih (infix_of_marker hplain hne h)).trans (List.suffix_cons c l).isInfix
      · refine hstart ?_
        rw [replaceMarked]
        exact if_neg hmatch

theorem not_plain_of_replaced (hmarker : marker ≠ []) (hsecret : secret ≠ []) (hplain : Plain occurrence)
    (hchars : occurrence.map Prod.fst = secret) {skipped : Nat} :
    ¬ occurrence <:+: replaceMarked secret marker skipped l := by
  have hne : occurrence ≠ [] := by
    rintro rfl
    exact hsecret hchars.symm
  induction l generalizing skipped with
  | nil =>
    intro h
    have hnil : occurrence <:+: [] := by cases skipped <;> exact h
    exact hne (List.eq_nil_of_infix_nil hnil)
  | cons c l ih =>
    intro h
    cases skipped with
    | succ skipped => exact ih h
    | zero =>
      by_cases hmatch : secret.isPrefixOf ((c :: l).map Prod.fst) = true
      · unfold replaceMarked at h
        rw [if_pos hmatch] at h
        exact ih (infix_of_marker hplain hne h)
      · have heq : replaceMarked secret marker 0 (c :: l) = c :: replaceMarked secret marker 0 l := by
          rw [replaceMarked]
          exact if_neg hmatch
        rw [heq, List.infix_cons_iff] at h
        rcases h with hprefix | hinfix
        · rw [← heq] at hprefix
          have hstart := (prefix_of_replaceMarked hmarker hplain hprefix).map Prod.fst
          rw [hchars] at hstart
          exact hmatch (List.isPrefixOf_iff_prefix.mpr hstart)
        · exact ih hinfix

end Replacing

theorem marker_ne_nil : REDACTED.toList ≠ [] := by decide +kernel

theorem map_fst_redactMarked (text : String) (secrets : List String) :
    (redactMarked text secrets).map Prod.fst = (redactString text secrets).toList := by
  have hstart : (text.toList.map (fun c => (c, false))).map Prod.fst = text.toList := by
    rw [List.map_map]
    exact List.map_id text.toList
  unfold redactMarked redactString
  generalize text.toList.map (fun c => (c, false)) = current at hstart
  induction secrets generalizing current text with
  | nil => exact hstart
  | cons secret secrets ih =>
    rw [List.foldl_cons, List.foldl_cons]
    refine ih (String.ofList (replaceAll secret.toList REDACTED.toList 0 text.toList)) _ ?_
    rw [map_fst_replaceMarked, hstart, String.toList_ofList]

variable {secrets : List String}

theorem not_plain_of_redacted {text : String} {secret : String} (hmem : secret ∈ secrets) (hne : secret ≠ "")
    {occurrence : List Marked} (hplain : Plain occurrence) (hchars : occurrence.map Prod.fst = secret.toList) :
    ¬ occurrence <:+: redactMarked text secrets := by
  have hsecret : secret.toList ≠ [] := by simpa using hne
  have hoccurrence : occurrence ≠ [] := by
    rintro rfl
    exact hsecret hchars.symm
  unfold redactMarked
  generalize text.toList.map (fun c => (c, false)) = current
  -- Every replacement after its own keeps the secret out.
  have hkept : ∀ (rest : List String) (current : List Marked), ¬ occurrence <:+: current →
      ¬ occurrence <:+: rest.foldl (fun current secret => replaceMarked secret.toList REDACTED.toList 0 current)
        current := by
    intro rest
    induction rest with
    | nil => exact fun _ h => h
    | cons other rest ih =>
      intro current hnot
      exact ih _ (mt (infix_of_replaceMarked marker_ne_nil hplain hoccurrence) hnot)
  induction secrets generalizing current with
  | nil => cases hmem
  | cons first secrets ih =>
    rw [List.foldl_cons]
    rcases List.mem_cons.mp hmem with rfl | hmem
    · exact hkept secrets _ (not_plain_of_replaced marker_ne_nil hsecret hplain hchars)
    · exact ih hmem _

theorem infix_redactString_iff {text : String} {secret : String} (hmem : secret ∈ secrets) (hne : secret ≠ "") :
    secret.toList <:+: (redactString text secrets).toList ↔ AcrossMarker secret.toList (redactMarked text secrets) := by
  rw [← map_fst_redactMarked]
  constructor
  · rintro ⟨before, after, heq⟩
    obtain ⟨front, back, hsplit, hfront, -⟩ := List.map_eq_append_iff.mp heq.symm
    obtain ⟨start, occurrence, rfl, -, hchars⟩ := List.map_eq_append_iff.mp hfront
    have hinfix : occurrence <:+: redactMarked text secrets := ⟨start, back, hsplit.symm⟩
    refine ⟨occurrence, hinfix, hchars, ?_⟩
    by_contra hnone
    refine not_plain_of_redacted hmem hne (fun c hc => ?_) hchars hinfix
    by_contra hmarked
    exact hnone ⟨c, hc, by simpa using hmarked⟩
  · rintro ⟨occurrence, hinfix, hchars, -⟩
    rw [← hchars]
    exact hinfix.map Prod.fst

namespace Payload

def Written.render (secrets : List String) : Written → String
  | .asIs text => text
  | .redacted text => redactString text secrets

theorem textsOfProperties_eq (properties : List (String × Payload)) :
    textsOfProperties properties = properties.flatMap (fun p => p.1 :: p.2.texts) := by
  induction properties with
  | nil => rfl
  | cons p properties ih =>
    rw [textsOfProperties, ih, List.flatMap_cons]
    rfl

/-- The texts of properties are what is written, when the texts of their values are. -/
theorem texts_of_same {properties : List (String × Payload)} {written : List (String × List Written)}
    (h : properties.map (fun p => (p.1, p.2.texts)) = written.map (fun p => (p.1, p.2.map (Written.render secrets)))) :
    
    textsOfProperties properties = (written.flatMap (fun p => .asIs p.1 :: p.2)).map (Written.render secrets) := by
  have hleft : textsOfProperties properties
      = (properties.map (fun p => (p.1, p.2.texts))).flatMap (fun p => p.1 :: p.2) := by
    rw [textsOfProperties_eq, List.flatMap_map]
  rw [hleft, h, List.flatMap_map, List.map_flatMap]
  rfl

mutual

theorem texts_sanitizeTo (maxDepth : Nat) (secrets : List String) (depth : Nat) (v : Payload) :
    (v.sanitizeTo maxDepth secrets depth).texts = (v.written maxDepth depth).map (Written.render secrets) := by
  unfold sanitizeTo written
  split_ifs with hdepth
  · rfl
  match v with
  | .null | .undefined | .boolean _ | .number _ | .nonFinite | .string _ | .bigint _ | .unsupported
  | .bytes _ | .date none | .date (some _) | .collection | .circular => rfl
  | .array items => exact texts_of_same (same_sanitizeItemsTo maxDepth secrets (depth + 1) 0 items)
  | .object plain properties => exact texts_of_same (same_sanitizePropertiesTo maxDepth secrets (depth + 1) properties)
  | .error name message properties =>
    have hsame := same_sanitizePropertiesTo maxDepth secrets (depth + 1) properties
    refine texts_of_same ?_
    have hleft := congrArg OrderedMap.entries (OrderedMap.mapValues_ofList texts
      ([("name", .string (redactString name secrets)), ("message", .string (redactString message secrets))]
        ++ sanitizePropertiesTo maxDepth secrets (depth + 1) properties))
    have hright := congrArg OrderedMap.entries (OrderedMap.mapValues_ofList (List.map (Written.render secrets))
      ([("name", [.redacted name]), ("message", [.redacted message])]
        ++ writtenProperties maxDepth (depth + 1) properties))
    refine hleft.trans (Eq.trans ?_ hright.symm)
    rw [List.map_append, List.map_append, hsame]
    rfl

theorem same_sanitizeItemsTo (maxDepth : Nat) (secrets : List String) (depth index : Nat) (items : List Payload) :
    (sanitizeItemsTo maxDepth secrets depth index items).map (fun p => (p.1, p.2.texts))
      = (writtenItems maxDepth depth index items).map (fun p => (p.1, p.2.map (Written.render secrets))) := by
  match items with
  | [] => rfl
  | v :: items =>
    rw [sanitizeItemsTo, writtenItems, List.map_cons, List.map_cons, texts_sanitizeTo maxDepth secrets depth v,
      same_sanitizeItemsTo maxDepth secrets depth (index + 1) items]

theorem same_sanitizePropertiesTo (maxDepth : Nat) (secrets : List String) (depth : Nat)
    (properties : List (String × Payload)) :
    (sanitizePropertiesTo maxDepth secrets depth properties).map (fun p => (p.1, p.2.texts))
      = (writtenProperties maxDepth depth properties).map (fun p => (p.1, p.2.map (Written.render secrets))) := by
  match properties with
  | [] => rfl
  | (key, v) :: properties =>
    rw [sanitizePropertiesTo, writtenProperties, List.map_cons, List.map_cons,
      same_sanitizePropertiesTo maxDepth secrets depth properties]
    split_ifs
    · rfl
    · rw [texts_sanitizeTo maxDepth secrets depth v]

end

mutual

theorem sanitizeTo_default (secrets : List String) (depth : Nat) (v : Payload) :
    v.sanitizeTo maxSanitizerDepth secrets depth = v.sanitizeValue secrets depth := by
  unfold sanitizeTo sanitizeValue
  split_ifs with hdepth
  · rfl
  match v with
  | .null | .undefined | .boolean _ | .number _ | .nonFinite | .string _ | .bigint _ | .unsupported
  | .bytes _ | .date none | .date (some _) | .collection | .circular => rfl
  | .array items =>
    dsimp only
    rw [sanitizeItemsTo_default secrets (depth + 1) 0 items]
  | .object plain properties =>
    dsimp only
    rw [sanitizePropertiesTo_default secrets (depth + 1) properties]
  | .error name message properties =>
    dsimp only
    rw [sanitizePropertiesTo_default secrets (depth + 1) properties]

theorem sanitizeItemsTo_default (secrets : List String) (depth index : Nat) (items : List Payload) :
    sanitizeItemsTo maxSanitizerDepth secrets depth index items = sanitizeItems secrets depth index items := by
  match items with
  | [] => rfl
  | v :: items =>
    rw [sanitizeItemsTo, sanitizeItems, sanitizeTo_default secrets depth v,
      sanitizeItemsTo_default secrets depth (index + 1) items]

theorem sanitizePropertiesTo_default (secrets : List String) (depth : Nat) (properties : List (String × Payload)) :
    sanitizePropertiesTo maxSanitizerDepth secrets depth properties = sanitizeProperties secrets depth properties := by
  match properties with
  | [] => rfl
  | (key, v) :: properties =>
    rw [sanitizePropertiesTo, sanitizeProperties, sanitizePropertiesTo_default secrets depth properties]
    split_ifs
    · rfl
    · rw [sanitizeTo_default secrets depth v]

end

theorem sanitizeSecretsTo_default (v : Payload) (options : SecretSanitizerOptions) :
    v.sanitizeSecretsTo options none = .ok (v.sanitizeSecrets options) := by
  have hdefault : isSafeInteger (maxSanitizerDepth : Int) = true ∧ (0 : Int) ≤ (maxSanitizerDepth : Int) := by decide
  unfold sanitizeSecretsTo sanitizeSecrets
  rw [Option.getD_none]
  rw [if_pos hdefault, Int.toNat_natCast, sanitizeTo_default]

end Payload

theorem mem_secretList {options : SecretSanitizerOptions} {secret : String} :
    secret ∈ secretList options ↔ secret ∈ options.secrets ++ options.secretValues ∧ secret ≠ "" := by
  unfold secretList
  rw [List.mem_insertionSort, mem_unique, List.mem_filter, decide_eq_true_eq]

theorem mem_replaceMarked {secret marker : List Char} {c : Char} {skipped : Nat} {l : List Marked}
    (h : (c, true) ∈ replaceMarked secret marker skipped l) : c ∈ marker ∨ (c, true) ∈ l := by
  induction l generalizing skipped with
  | nil =>
    have hnil : (c, true) ∈ ([] : List Marked) := by cases skipped <;> exact h
    cases hnil
  | cons d l ih =>
    cases skipped with
    | succ skipped => exact (ih h).imp_right (List.mem_cons_of_mem d)
    | zero =>
      unfold replaceMarked at h
      split_ifs at h
      · rcases List.mem_append.mp h with h | h
        · obtain ⟨e, he, heq⟩ := List.mem_map.mp h
          rw [← (Prod.mk.inj heq).1]
          exact .inl he
        · exact (ih h).imp_right (List.mem_cons_of_mem d)
      · rcases List.mem_cons.mp h with heq | h
        · exact .inr (by rw [heq]; exact List.mem_cons_self)
        · exact (ih h).imp_right (List.mem_cons_of_mem d)

theorem mem_redactMarked {text : String} {c : Char} (h : (c, true) ∈ redactMarked text secrets) : c ∈ REDACTED.toList := by
  have hfold : ∀ (secrets : List String) (current : List Marked),
      (c, true) ∈ secrets.foldl (fun current secret => replaceMarked secret.toList REDACTED.toList 0 current) current →
        c ∈ REDACTED.toList ∨ (c, true) ∈ current := by
    intro secrets
    induction secrets with
    | nil => exact fun _ h => Or.inr h
    | cons secret secrets ih =>
      intro current h
      rcases ih _ h with hmarker | hreplaced
      · exact .inl hmarker
      · exact mem_replaceMarked hreplaced
  rcases hfold secrets _ h with hmarker | hstart
  · exact hmarker
  · obtain ⟨d, -, heq⟩ := List.mem_map.mp hstart
    cases (Prod.mk.inj heq).2

theorem joinsNoSecret_of_disjoint (v : Payload) {options : SecretSanitizerOptions} (maxDepth : Nat)
    (hdisjoint : ∀ secret ∈ options.secrets ++ options.secretValues, ∀ c ∈ secret.toList, c ∉ REDACTED.toList) :
    v.JoinsNoSecret options maxDepth := by
  rintro secret hmem - text - ⟨occurrence, hinfix, hchars, ⟨c, marked⟩, hc, hmarked⟩
  obtain rfl : marked = true := hmarked
  refine hdisjoint secret hmem c ?_ (mem_redactMarked (List.IsInfix.subset hinfix hc))
  rw [← hchars]
  exact List.mem_map_of_mem hc

/-- A note under a key, with the secret `abc`. -/
def noteUnder (key : String) : Payload := .object true [(key, .string "id=abc.")]

end Premise.Security
