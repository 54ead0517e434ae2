import Premise.Vectors.Proofs.CheckProofs
import Premise.Vectors.Scopes

/-!
# Proofs: the scopes of the premise/1.1 vectors

The text of a scope determines its path and its ending, and one text starts with another one where the paths do.
`scopeOverlaps` therefore sees that two scopes meet, except where a wildcard is compared with a scope at or above
it.
-/

namespace Premise.Vectors

open Collections Js Protocol.V1

@[simp] theorem startsWith_iff {value start : List Char} : startsWith value start = true ↔ start <+: value :=
  List.isPrefixOf_iff_prefix

@[simp] theorem endsWith_iff {value last : List Char} : endsWith value last = true ↔ last <:+ value :=
  List.isSuffixOf_iff_suffix

theorem segment_prefix {s t x y : List Char} (hs : '/' ∉ s) (ht : '/' ∉ t) (hx : x.head? = some '/')
    (hy : ∀ c ∈ y.head?, c = '/') : s ++ x <+: t ++ y ↔ s = t ∧ x <+: y := by
  induction s generalizing t with
  | nil =>
    cases t with
    | nil => simp
    | cons c t =>
      obtain ⟨x, rfl⟩ : ∃ l, x = '/' :: l := ⟨x.tail, List.eq_cons_of_mem_head? hx⟩
      refine iff_of_false (fun h => ?_) (fun h => nomatch h.1)
      exact ht ((List.cons_prefix_cons.mp h).1 ▸ List.mem_cons_self)
  | cons a s ih =>
    cases t with
    | nil =>
      refine iff_of_false (fun h => ?_) (fun h => nomatch h.1)
      obtain ⟨rest, hrest⟩ := h
      have hhead : a ∈ y.head? := by
        rw [List.nil_append] at hrest
        rw [← hrest]
        rfl
      exact hs (hy a hhead ▸ List.mem_cons_self)
    | cons c t =>
      rw [List.cons_append, List.cons_append, List.cons_prefix_cons,
        ih (fun h => hs (List.mem_cons_of_mem _ h)) (fun h => ht (List.mem_cons_of_mem _ h)), List.cons.injEq, and_assoc]

theorem pathText_cons (s : Segment) (path : Path) : pathText (s :: path) = '/' :: (s.val ++ pathText path) :=
  List.flatMap_cons

theorem head?_pathText (path : Path) {rest : List Char} (h : ∀ c ∈ rest.head?, c = '/') :
    ∀ c ∈ (pathText path ++ rest).head?, c = '/' := by
  cases path with
  | nil => exact h
  | cons s path =>
    intro c hc
    exact (Option.some.inj hc).symm

theorem head?_text (e : Ending) : ∀ c ∈ e.text.head?, c = '/' := by
  cases e with
  | plain => exact nofun
  | slash | below => exact fun c hc => (Option.some.inj hc).symm

theorem pathText_prefix (p q : Path) (e : Ending) :
    pathText p ++ ['/'] <+: pathText q ++ e.text ↔ p <+: q ∧ (p = q → e ≠ .plain) := by
  induction p generalizing q with
  | nil =>
    cases q with
    | nil => cases e <;> simp [pathText, Ending.text]
    | cons t q =>
      rw [pathText_cons]
      exact iff_of_true ⟨_, rfl⟩ ⟨List.nil_prefix, nofun⟩
  | cons s p ih =>
    cases q with
    | nil =>
      refine iff_of_false (fun h => ?_) (fun h => List.cons_ne_nil _ _ (List.prefix_nil.mp h.1))
      have hlength := h.length_le
      have hs := List.length_pos_of_ne_nil s.property.1
      rw [pathText_cons] at hlength
      cases e with
      | _ =>
        simp [pathText, Ending.text] at hlength
        try omega
    | cons t q =>
      have hhead : (pathText p ++ ['/']).head? = some '/' := by cases p <;> rfl
      rw [pathText_cons, pathText_cons, List.cons_append, List.cons_append, List.cons_prefix_cons, List.append_assoc,
        List.append_assoc, segment_prefix s.property.2 t.property.2 hhead (head?_pathText q (head?_text e)), ih,
        List.cons_prefix_cons, List.cons.injEq, Subtype.ext_iff]
      tauto

theorem pathText_injective {p q : Path} (h : pathText p = pathText q) : p = q := by
  have hpq := ( pathText_prefix p q .slash).mp (by rw [h]; exact List.prefix_rfl)
  have hqp := ( pathText_prefix q p .slash).mp (by rw [h]; exact List.prefix_rfl)
  exact hpq.1.eq_of_length (le_antisymm hpq.1.length_le hqp.1.length_le)

namespace Scope

theorem plain_end {scope : Scope} (h : scope.ending = .plain) : ¬ ['/'] <:+ scope.text ∧ ¬ ['/', '*'] <:+ scope.text := by
  obtain ⟨path, s, hpath⟩ := List.eq_nil_or_concat scope.path |>.resolve_left (fun hnil => scope.root hnil h)
  have hlast := scope.not_wildcard h s (by rw [hpath]; simp)
  obtain ⟨init, c, hs⟩ := List.eq_nil_or_concat s.val |>.resolve_left s.property.1
  have htext : scope.text = (pathText path ++ '/' :: init) ++ [c] := by
    rw [text, h, hpath]
    simp [pathText, Ending.text, hs]
  have hc : c ≠ '/' := by
    rintro rfl
    exact s.property.2 (by rw [hs]; simp)
  constructor
  · rintro ⟨rest, hrest⟩
    rw [htext] at hrest
    exact hc (by simpa using (List.append_inj' hrest rfl).2.symm)
  · rintro ⟨rest, hrest⟩
    rw [htext, show ['/', '*'] = ['/'] ++ ['*'] from rfl, ← List.append_assoc] at hrest
    obtain ⟨hinit, hstar⟩ := List.append_inj' hrest rfl
    obtain rfl : '*' = c := by simpa using hstar
    rcases List.eq_nil_or_concat init with rfl | ⟨init', d, rfl⟩
    · exact hlast hs
    · rw [List.concat_eq_append, ← List.cons_append, ← List.append_assoc] at hinit
      obtain rfl : '/' = d := by simpa using (List.append_inj' hinit rfl).2
      exact s.property.2 (by rw [hs]; simp)

theorem below_iff (scope : Scope) : endsWith scope.text ['/', '*'] = true ↔ scope.ending = .below := by
  rw [endsWith_iff]
  cases h : scope.ending with
  | plain => exact iff_of_false (plain_end h).2 nofun
  | slash =>
    refine iff_of_false ?_ nofun
    rintro ⟨rest, hrest⟩
    rw [text, h, show ['/', '*'] = ['/'] ++ ['*'] from rfl, ← List.append_assoc] at hrest
    exact absurd (List.append_inj' hrest rfl).2 (by decide)
  | below => exact iff_of_true ⟨_, by rw [text, h]; rfl⟩ rfl

theorem slash_iff (scope : Scope) : endsWith scope.text ['/'] = true ↔ scope.ending = .slash := by
  rw [endsWith_iff]
  cases h : scope.ending with
  | plain => exact iff_of_false (plain_end h).1 nofun
  | slash => exact iff_of_true ⟨_, by rw [text, h]; rfl⟩ rfl
  | below =>
    refine iff_of_false ?_ nofun
    rintro ⟨rest, hrest⟩
    rw [text, h, show Ending.below.text = ['/'] ++ ['*'] from rfl, ← List.append_assoc] at hrest
    exact absurd (List.append_inj' hrest rfl).2 (by decide)

theorem eq_of_text {s t : Scope} (h : s.text = t.text) : s.path = t.path ∧ s.ending = t.ending := by
  have hending : s.ending = t.ending := by
    have hbelow := s.below_iff.symm.trans ((iff_of_eq (by rw [h])).trans t.below_iff)
    have hslash := s.slash_iff.symm.trans ((iff_of_eq (by rw [h])).trans t.slash_iff)
    cases hs : s.ending <;> cases ht : t.ending <;> simp_all
  refine ⟨pathText_injective ?_, hending⟩
  rw [text, text, hending] at h
  exact List.append_cancel_right h

theorem wildcard_text (scope : Scope) : wildcard scope.text = pathText scope.path ++ ['/'] := by
  unfold wildcard
  cases h : scope.ending with
  | plain =>
    rw [if_neg (by rw [below_iff, h]; decide), if_neg (by rw [slash_iff, h]; decide), text, h]
    simp [Ending.text]
  | slash =>
    rw [if_neg (by rw [below_iff, h]; decide), if_pos (scope.slash_iff.mpr h), text, h]
    rfl
  | below =>
    rw [if_pos (scope.below_iff.mpr h), text, h]
    simp [Ending.text, List.dropLast_append_of_ne_nil]

theorem startsWith_wildcard (s t : Scope) :
    startsWith t.text (wildcard s.text) = true ↔ s.path <+: t.path ∧ (s.path = t.path → t.ending ≠ .plain) := by
  rw [startsWith_iff, wildcard_text, text, pathText_prefix]

theorem root_of_text {s : Scope} (h : s.text = ['/']) : s.path = [] ∧ s.ending = .slash :=
  eq_of_text (t := ⟨[], .slash, nofun, nofun⟩) h

theorem meets_iff (s t : Scope) : s.Meets t ↔ s.path <+: t.path ∨ t.path <+: s.path := by
  constructor
  · rintro ⟨path, hs, ht⟩
    exact List.prefix_or_prefix_of_prefix hs.1 ht.1
  · have hnames : ∀ (s : Scope) (path : Path), s.path <+: path → s.Names (path ++ [⟨['*'], by decide⟩]) := by
      intro s path h
      refine ⟨h.trans (List.prefix_append _ _), fun _ heq => ?_⟩
      have hlength := h.length_le
      rw [heq, List.length_append, List.length_singleton] at hlength
      omega
    rintro (h | h)
    · exact ⟨_, hnames s _ h, hnames t _ List.prefix_rfl⟩
    · exact ⟨_, hnames s _ List.prefix_rfl, hnames t _ h⟩

theorem Missed.meets {s t : Scope} (h : s.Missed t) : s.Meets t := by
  rw [meets_iff]
  rcases h with ⟨-, h⟩ | ⟨-, -, h⟩
  · exact .inr h.2.1
  · exact .inl h.2.1

theorem starts_iff (w t : Scope) (ht : t.text ≠ ['/']) : w.path <+: t.path ∧ (w.path = t.path → t.ending ≠ .plain) ↔
      (w.path <+: t.path ∨ t.path <+: w.path) ∧ ¬ t.Above w := by
  constructor
  · rintro ⟨hwt, hplain⟩
    refine ⟨Or.inl hwt, fun habove => ?_⟩
    have heq := hwt.eq_of_length (le_antisymm hwt.length_le habove.2.1.length_le)
    exact hplain heq (habove.2.2 heq.symm)
  · rintro ⟨hmeets, habove⟩
    rcases hmeets with hwt | htw
    · refine ⟨hwt, fun heq hplain => habove ⟨ht, ?_, fun _ => hplain⟩⟩
      rw [heq]
    · by_cases heq : t.path = w.path
      · refine ⟨by rw [heq], fun _ hplain => habove ⟨ht, htw, fun _ => hplain⟩⟩
      · exact absurd ⟨ht, htw, fun h => absurd h heq⟩ habove

theorem scopeOverlaps_iff (s t : Scope) : scopeOverlaps s.text t.text = true ↔ s.Meets t ∧ ¬ s.Missed t := by
  rw [meets_iff]
  unfold scopeOverlaps Missed
  by_cases hs : s.text = ['/']
  · obtain ⟨hpath, hending⟩ := root_of_text hs
    rw [if_pos (Or.inl hs)]
    refine iff_of_true rfl ⟨Or.inl (by rw [hpath]; exact List.nil_prefix), ?_⟩
    rintro (⟨hbelow, -⟩ | ⟨-, -, habove⟩)
    · rw [hending] at hbelow
      cases hbelow
    · exact habove.1 hs
  by_cases ht : t.text = ['/']
  · obtain ⟨hpath, hending⟩ := root_of_text ht
    rw [if_pos (Or.inr (Or.inl ht))]
    refine iff_of_true rfl ⟨Or.inr (by rw [hpath]; exact List.nil_prefix), ?_⟩
    rintro (⟨-, habove⟩ | ⟨-, hbelow, -⟩)
    · exact habove.1 ht
    · rw [hending] at hbelow
      cases hbelow
  by_cases hst : s.text = t.text
  · obtain ⟨hpath, hending⟩ := eq_of_text hst
    rw [if_pos (Or.inr (Or.inr hst))]
    refine iff_of_true rfl ⟨Or.inl (by rw [hpath]), ?_⟩
    rintro (⟨hbelow, habove⟩ | ⟨hnot, hbelow, -⟩)
    · have hplain := habove.2.2 hpath.symm
      rw [← hending, hbelow] at hplain
      cases hplain
    · exact hnot (hending.trans hbelow)
  rw [if_neg (by tauto)]
  by_cases hbelow : s.ending = .below
  · rw [if_pos (s.below_iff.mpr hbelow), startsWith_wildcard, starts_iff s t ht]
    simp [hbelow]
  · rw [if_neg (mt s.below_iff.mp hbelow)]
    by_cases hbelow' : t.ending = .below
    · rw [if_pos (t.below_iff.mpr hbelow'), startsWith_wildcard, starts_iff t s hs, or_comm]
      simp [hbelow, hbelow']
    · rw [if_neg (mt t.below_iff.mp hbelow'), Bool.or_eq_true, startsWith_wildcard, startsWith_wildcard]
      simp only [hbelow, hbelow', false_and, and_false, or_self, not_false_eq_true, and_true]
      constructor
      · rintro (⟨h, -⟩ | ⟨h, -⟩)
        · exact .inr h
        · exact .inl h
      · -- with equal paths the endings differ, so one of them is a slash
        intro hmeets
        by_cases hpath : s.path = t.path
        · have hending : s.ending ≠ t.ending := by
            intro heq
            exact hst (by rw [text, text, hpath, heq])
          cases hs' : s.ending with
          | plain =>
            refine .inr ⟨by rw [hpath], fun _ hplain => hending (hs'.trans hplain.symm)⟩
          | slash => exact .inl ⟨by rw [hpath], fun _ => nofun⟩
          | below => exact absurd hs' hbelow
        · rcases hmeets with h | h
          · exact .inr ⟨h, fun heq => absurd heq hpath⟩
          · exact .inl ⟨h, fun heq => absurd heq.symm hpath⟩

end Scope

/-! ## The operations -/

theorem pythonScopeOverlaps_eq (left right : List Char) : pythonScopeOverlaps left right = scopeOverlaps left right := by
  unfold pythonScopeOverlaps scopeOverlaps wildcard
  simp only [List.mem_cons, List.not_mem_nil, or_false]
  split_ifs <;> simp_all

theorem intersects_iff (left right : List Scope) : intersects left right = true ↔ Seen left right := by
  simp [intersects, Seen, Scope.scopeOverlaps_iff]

theorem covers_iff (available required : List Scope) : covers available required = true ↔
    ∀ need ∈ required, ∃ held ∈ available, held.Meets need ∧ ¬ held.Missed need := by
  simp [covers, Scope.scopeOverlaps_iff]

section

variable (change : Change) (memories : List ScopedMemory)
include change memories

theorem mem_invalidationVector (memoryId : String) :
    memoryId ∈ invalidationVector change memories ↔ ∃ memory ∈ memories, memory.memoryId = memoryId ∧
      memory.identity = change.identity ∧ Seen memory.scopes change.changedScopes := by
  simp only [invalidationVector, mem_sortStrings, List.mem_map, List.mem_filter, Bool.and_eq_true, decide_eq_true_eq,
    intersects_iff]
  exact exists_congr fun memory => by tauto

theorem mem_pythonInvalidation (memoryId : String) :
    memoryId ∈ pythonInvalidation change memories ↔ ∃ memory ∈ memories, memory.memoryId = memoryId ∧
      memory.identity = change.identity ∧ Seen change.changedScopes memory.scopes := by
  simp only [pythonInvalidation, List.mem_insertionSort, List.mem_map, List.mem_filter, Bool.and_eq_true,
    decide_eq_true_eq, pythonScopeOverlaps_eq]
  refine exists_congr fun memory => ?_
  have hseen := intersects_iff change.changedScopes memory.scopes
  unfold intersects at hseen
  rw [hseen, eq_comm (a := change.identity)]
  tauto

theorem listsTouched_iff :
    ListsTouched change memories (invalidationVector change memories) ↔ SeesTouched change memories Seen := by
  simp only [ListsTouched, SeesTouched, mem_invalidationVector]

theorem listsTouched_python_iff : ListsTouched change memories (pythonInvalidation change memories) ↔
      SeesTouched change memories (fun scopes changed => Seen changed scopes) := by
  simp only [ListsTouched, SeesTouched, mem_pythonInvalidation]

end

theorem checkEvidence_ne_fresh_iff {vector : CheckVector} {evidence : ScopedEvidence} {observation : ScopedObservation}
    (h : vector.Changed evidence observation) :
    vector.checkEvidence evidence ≠ .fresh ↔
      (observation.Comparable evidence → Seen evidence.scopes observation.changedScopes) := by
  have hne : observation.changedScopes ≠ [] := by
    obtain ⟨s, -, t, ht, -⟩ := h.touch
    exact List.ne_nil_of_mem ht
  unfold CheckVector.checkEvidence
  rw [h.observed]
  dsimp only
  by_cases htenant : observation.identity.tenantId = evidence.identity.tenantId
  · by_cases hincarnation : observation.identity.incarnationId = evidence.identity.incarnationId
    · by_cases havailable : observation.available = some false
      · rw [if_neg (not_not.mpr htenant), if_neg (not_not.mpr hincarnation), if_pos havailable]
        exact iff_of_true nofun fun hcomparable => absurd havailable hcomparable.available
      · rw [if_neg (not_not.mpr htenant), if_neg (not_not.mpr hincarnation), if_neg havailable, if_neg h.version,
          imp_iff_right ⟨htenant, hincarnation, havailable⟩, ← intersects_iff]
        cases intersects evidence.scopes observation.changedScopes <;> simp [hne]
    · rw [if_neg (not_not.mpr htenant), if_pos hincarnation]
      exact iff_of_true nofun fun hcomparable => absurd hcomparable.incarnation hincarnation
  · rw [if_pos htenant]
    exact iff_of_true nofun fun hcomparable => absurd hcomparable.tenant htenant

theorem evidenceState_eq_fresh {evidence : List MemoryStatus} (h : evidenceState evidence = .fresh) :
    ∀ s ∈ evidence, s = .fresh := by
  induction evidence with
  | nil => exact nofun
  | cons s rest ih =>
    cases s with
    | fresh => exact List.forall_mem_cons.mpr ⟨rfl, ih h⟩
    | _ => cases h

theorem evidence_fresh {vector : CheckVector} {memoryId : String} {seen : List String} {memory : ScopedMemory}
    (hmemory : vector.memories.find? (fun memory => memory.memoryId = memoryId) = some memory)
    (h : vector.checkMemory memoryId seen = .fresh) : ∀ e ∈ memory.evidence, vector.checkEvidence e = .fresh := by
  have hlookup : lookup vector.entries memoryId = some
      { memoryId := memory.memoryId
        permitted := vector.tenantId = "" || memory.identity.tenantId = vector.tenantId
        invalidated := memory.invalidated
        dependencies := memory.dependsOn
        evidence := memory.evidence.map vector.checkEvidence } := by
    unfold lookup CheckVector.entries
    rw [List.find?_map]
    exact congrArg (Option.map _) hmemory
  unfold CheckVector.checkMemory at h
  rw [stateFor_eq, hlookup] at h
  dsimp only at h
  split_ifs at h
  unfold combine at h
  split_ifs at h with hinvalid hdependencies
  · exact List.forall_mem_map.mp (evidenceState_eq_fresh h)
  · exact absurd h hdependencies

theorem receiptReason_eq_match_iff (receipt : Receipt) (request : ReceiptRequest) :
    receiptReason receipt request = "MATCH" ↔
      receipt.Answers request ∧ covers receipt.scopes request.requiredScopes = true := by
  unfold receiptReason
  constructor
  · intro h
    split_ifs at h with hidentity _ hversion hvalidator hauthorization hcovers hfrontier
    all_goals first
      | exact ⟨⟨not_not.mp hidentity, not_not.mp hversion, not_not.mp hvalidator, not_not.mp hauthorization,
          not_not.mp hfrontier⟩, by simpa using hcovers⟩
      | exact absurd h (by decide)
  · rintro ⟨⟨hidentity, hversion, hvalidator, hauthorization, hfrontier⟩, hcovers⟩
    rw [if_neg (not_not.mpr hidentity), if_neg (not_not.mpr hversion), if_neg (not_not.mpr hvalidator),
      if_neg (not_not.mpr hauthorization), if_neg (by simp [hcovers]), if_neg (not_not.mpr hfrontier)]

theorem scopes_sound_iff (s t : Scope) :
    ((scopeOverlaps s.text t.text = scopeOverlaps t.text s.text ∧
      (s.Meets t → scopeOverlaps s.text t.text = true)) ↔ ¬ s.Missed t ∧ ¬ t.Missed s) ∧
    (∀ left right, pythonScopeOverlaps left right = scopeOverlaps left right) ∧
    (∀ change memories,
      (ListsTouched change memories (invalidationVector change memories) ↔ SeesTouched change memories Seen) ∧
      (ListsTouched change memories (pythonInvalidation change memories) ↔
        SeesTouched change memories (fun scopes changed => Seen changed scopes))) ∧
    (∀ (vector : CheckVector) evidence observation, vector.Changed evidence observation →
      (vector.checkEvidence evidence ≠ .fresh ↔
        (observation.Comparable evidence → Seen evidence.scopes observation.changedScopes))) ∧
    (∀ (vector : CheckVector) memoryId seen memory,
      vector.memories.find? (fun memory => memory.memoryId = memoryId) = some memory →
        vector.checkMemory memoryId seen = .fresh → ∀ e ∈ memory.evidence, vector.checkEvidence e = .fresh) ∧
    ∀ receipt request, (¬ Contains receipt.scopes request.requiredScopes → receiptReason receipt request ≠ "MATCH") ↔
      (receipt.Answers request →
        (∀ need ∈ request.requiredScopes, ∃ held ∈ receipt.scopes, held.Meets need ∧ ¬ held.Missed need) →
          Contains receipt.scopes request.requiredScopes) := by
  refine ⟨?_, pythonScopeOverlaps_eq, fun change memories =>
    ⟨listsTouched_iff change memories, listsTouched_python_iff change memories⟩,
    fun vector evidence observation h => checkEvidence_ne_fresh_iff h,
    fun vector memoryId seen memory hmemory h => evidence_fresh hmemory h, fun receipt request => ?_⟩
  · have hst := s.scopeOverlaps_iff t
    have hts := t.scopeOverlaps_iff s
    have hsymm : t.Meets s ↔ s.Meets t := by rw [Scope.meets_iff, Scope.meets_iff, or_comm]
    have hmissed : s.Missed t → s.Meets t := Scope.Missed.meets
    have hmissed' : t.Missed s → t.Meets s := Scope.Missed.meets
    rw [Bool.eq_iff_iff, hst, hts]
    tauto
  · rw [Ne, receiptReason_eq_match_iff, covers_iff]
    tauto

/-- A scope below a path and the path itself: what is below meets both. -/
theorem wildcard_misses_its_path : ¬ ∀ s t : Scope, scopeOverlaps s.text t.text = scopeOverlaps t.text s.text ∧
    (s.Meets t → scopeOverlaps s.text t.text = true) := by
  intro h
  have hsegment : ['a'] ≠ [] ∧ '/' ∉ ['a'] := by decide
  let below : Scope := ⟨[⟨['a'], hsegment⟩], .below, nofun, nofun⟩
  let plain : Scope := ⟨[⟨['a'], hsegment⟩], .plain, nofun, fun _ s hs => by
    rw [← Option.some.inj hs]
    exact (by decide : ['a'] ≠ ['*'])⟩
  exact Bool.false_ne_true ((h below plain).2 ((Scope.meets_iff below plain).mpr (Or.inl List.prefix_rfl)))

end Premise.Vectors
