import Premise.IndexHybrid.Proofs.StatisticsProofs

/-!
# The search against the naive search

The heap keeps the first results of the sorted list, because the tie-break gives every document a place of its
own; the postings leave out documents of score zero only; and the statistics are those that a recomputation
gives.
-/

namespace Premise.IndexHybrid

open Collections Control Js
open HostNumber (ofRational)

variable {S T : Type} [HostNumber S]

theorem compares_descending {α : Type} (value : α → S) :
    Compares (fun left right => compareDescending (value left) (value right))
      (fun entry => OrderDual.toDual (value entry)) := by
  constructor
  · intro left right
    rw [compareDescending, OrderDual.toDual_le_toDual]
    split_ifs with heq hgt
    · simp [heq]
    · simp [hgt.le]
    · simp [lt_of_le_of_ne (not_lt.mp hgt) heq]
  · intro left right
    rw [compareDescending, OrderDual.toDual_le_toDual]
    split_ifs with heq hgt
    · simp [heq]
    · simp [hgt]
    · simp [not_lt.mp hgt]

theorem compares_ids {α : Type} (id : α → String) :
    Compares (fun left right => compareIds (id left) (id right)) (fun entry => codeUnits (id entry)) := by
  constructor
  · intro left right
    rw [compareIds]
    split_ifs with heq hlt
    · simp [heq]
    · simp [hlt.le]
    · have hne : codeUnits (id left) ≠ codeUnits (id right) := fun h => heq (codeUnits_injective h)
      simp [lt_of_le_of_ne (not_lt.mp hlt) hne.symm]
  · intro left right
    rw [compareIds]
    split_ifs with heq hlt
    · simp [heq]
    · simp [hlt]
    · simp [not_lt.mp hlt]

/-- The place of a result: better scores first, then ids in order. -/
def rankKey (entry : ScoredDocument T S) : Sᵒᵈ ×ₗ Sᵒᵈ ×ₗ Sᵒᵈ ×ₗ List Nat :=
  toLex (OrderDual.toDual entry.parts.score, toLex (OrderDual.toDual entry.parts.lexicalScore,
    toLex (OrderDual.toDual entry.parts.vectorScore, codeUnits entry.stored.document.id)))

theorem compares_scoredDocuments : Compares (compareScoredDocuments (T := T) (S := S)) rankKey :=
  (compares_descending (fun entry : ScoredDocument T S => entry.parts.score)).orElse
    ((compares_descending (fun entry : ScoredDocument T S => entry.parts.lexicalScore)).orElse
      ((compares_descending (fun entry : ScoredDocument T S => entry.parts.vectorScore)).orElse
        (compares_ids (fun entry : ScoredDocument T S => entry.stored.document.id))))

omit [HostNumber S] in
theorem id_of_rankKey {left right : ScoredDocument T S} (h : rankKey left = rankKey right) :
    left.stored.document.id = right.stored.document.id := by
  have hunits := congrArg (fun key => (ofLex (ofLex (ofLex key).2).2).2) h
  exact codeUnits_injective hunits

theorem get?_termFrequency_of_not_mem {tokens : List String} {token : String} (h : token ∉ tokens) :
    (termFrequency tokens).get? token = none := by
  have key : ∀ counts : OrderedMap String Nat, counts.get? token = none →
      (tokens.foldl (fun counts token => counts.set token ((counts.get? token).getD 0 + 1)) counts).get? token = none := by
    induction tokens with
    | nil => exact fun counts hcounts => hcounts
    | cons first tokens ih =>
      intro counts hcounts
      rw [List.mem_cons, not_or] at h
      refine ih h.2 _ ?_
      rw [OrderedMap.get?_set_of_ne _ _ h.1]
      exact hcounts
  exact key ∅ rfl

variable {stored : StoredDocument T} {weights : Weights}

theorem bm25_of_disjoint {queryTokens : List String} (documentCount : Nat) (documentFrequency : String → Int)
    (averageDocumentLength : S) (hfrequency : stored.termFrequency = termFrequency stored.tokens)
    (h : ∀ token ∈ queryTokens, token ∉ stored.tokens) :
    (bm25 queryTokens stored documentCount documentFrequency averageDocumentLength).score = 0 := by
  unfold bm25
  generalize (ofRational bm25K1 : S) * _ = denominatorLength
  have key : ∀ (l : List String), (∀ token ∈ l, token ∈ queryTokens) → ∀ sum : Bm25 S,
      l.foldl (bm25Token stored documentCount documentFrequency denominatorLength) sum = sum := by
    intro l
    induction l with
    | nil => exact fun _ sum => rfl
    | cons token l ih =>
      intro hl sum
      have hzero : (stored.termFrequency.get? token).getD 0 = 0 := by
        rw [hfrequency, get?_termFrequency_of_not_mem (h token (hl token List.mem_cons_self))]
        rfl
      rw [List.foldl_cons, bm25Token, if_pos hzero]
      exact ih (fun token' htoken' => hl token' (List.mem_cons_of_mem _ htoken')) sum
  rw [key _ (fun token htoken => mem_unique.mp htoken)]

theorem score_fuse_zero (hlaws : HostNumber.Lawful S) (hvector : weights.vectorWeight = 0)
    (hlexical : weights.lexicalWeight ≠ 0) (tokens : List String) {lexical : Bm25 S} (hscore : lexical.score = 0) :
    (fuse weights tokens lexical 0).score = 0 := by
  unfold fuse normalizedBm25
  dsimp only
  rw [hscore, if_pos le_rfl, hvector, hlaws.ofRational_zero, max_self, hlaws.mul_zero, hlaws.mul_zero, hlaws.add_zero,
    hlaws.add_zero]
  exact hlaws.zero_div _ (hlaws.ofRational_ne_zero _ hlexical)

theorem weights_ne_zero {lexicalWeight vectorWeight : Option Number} {defaultLexicalWeight defaultVectorWeight : ℚ}
    (h : resolveWeights lexicalWeight vectorWeight defaultLexicalWeight defaultVectorWeight = .ok weights) :
    weights.lexicalWeight + weights.vectorWeight ≠ 0 := by
  obtain ⟨lexical, -, h⟩ := of_bind_ok h
  obtain ⟨vector, -, h⟩ := of_bind_ok h
  obtain ⟨hsum, h⟩ := of_check_ok h
  cases h
  exact hsum

def hasToken (queryTokens : List String) (stored : StoredDocument T) : Bool :=
  queryTokens.any (fun token => decide (token ∈ stored.tokens))

variable {index : HybridIndex T}

theorem Sound.nodup_values (h : Sound index) : index.documents.values.Nodup := by
  have hids : index.documents.values.map (fun stored => stored.document.id) = index.documents.keys := by
    rw [OrderedMap.values, OrderedMap.keys, List.map_map]
    refine List.map_congr_left fun p hp => ?_
    exact h.keyed p.1 p.2 (index.documents.get?_eq_some_iff.mpr hp)
  have hnodup := index.documents.keys_nodup
  rw [← hids] at hnodup
  exact hnodup.of_map

theorem Sound.get?_iff (h : Sound index) {id : String} :
    index.documents.get? id = some stored ↔ stored ∈ index.documents.values ∧ stored.document.id = id := by
  constructor
  · exact fun hget => ⟨(OrderedMap.mem_values _).mpr ⟨id, hget⟩, h.keyed id stored hget⟩
  · rintro ⟨hmem, rfl⟩
    obtain ⟨id, hget⟩ := (OrderedMap.mem_values _).mp hmem
    rwa [h.keyed id stored hget]

theorem Sound.mem_postings (h : Sound index) {token id : String} : id ∈ ((index.invertedIndex.get? token).getD ∅).elems
      ↔ ∃ stored ∈ index.documents.values, token ∈ stored.tokens ∧ stored.document.id = id := by
  rw [← mem_recountPostings]
  cases hget : index.invertedIndex.get? token with
  | none =>
    rw [(h.counted.absent token).mp hget]
    exact Iff.rfl
  | some postings => exact h.counted.postings token postings hget id

theorem Sound.candidates_perm (h : Sound index) (hvector : weights.vectorWeight = 0) (queryTokens : List String) :
    (index.candidateDocuments weights (unique queryTokens)).Perm (index.documents.values.filter (hasToken queryTokens)) := by
  unfold HybridIndex.candidateDocuments
  rw [if_pos hvector]
  generalize hids : unique ((unique queryTokens).flatMap
    (fun token => ((index.invertedIndex.get? token).getD ∅).elems)) = ids
  have hmem : ∀ id, id ∈ ids ↔ ∃ stored ∈ index.documents.values, hasToken queryTokens stored = true ∧ stored.document.id = id := by
    intro id
    rw [← hids, mem_unique, List.mem_flatMap]
    simp only [h.mem_postings, mem_unique, hasToken, List.any_eq_true, decide_eq_true_eq]
    constructor
    · rintro ⟨token, htoken, stored, hstored, hin, hid⟩
      exact ⟨stored, hstored, ⟨token, htoken, hin⟩, hid⟩
    · rintro ⟨stored, hstored, ⟨token, htoken, hin⟩, hid⟩
      exact ⟨token, htoken, stored, hstored, hin, hid⟩
  have hnodup : ids.Nodup := by
    rw [← hids]
    exact unique_nodup _
  have hcandidates : (ids.filterMap (fun id => index.documents.get? id)).Nodup := by
    refine hnodup.filterMap fun id id' stored hget hget' => ?_
    exact ((h.get?_iff.mp hget).2).symm.trans (h.get?_iff.mp hget').2
  refine (List.perm_ext_iff_of_nodup hcandidates (h.nodup_values.filter _)).mpr fun stored => ?_
  rw [List.mem_filterMap, List.mem_filter]
  constructor
  · rintro ⟨id, hid, hget⟩
    obtain ⟨hvalues, rfl⟩ := h.get?_iff.mp hget
    obtain ⟨other, hother, htoken, hsame⟩ := (hmem _).mp hid
    have hget' := h.get?_iff.mpr ⟨hother, hsame⟩
    rw [hget] at hget'
    cases hget'
    exact ⟨hvalues, htoken⟩
  · rintro ⟨hvalues, htoken⟩
    exact ⟨stored.document.id, (hmem _).mpr ⟨stored, hvalues, htoken, rfl⟩, h.get?_iff.mpr ⟨hvalues, rfl⟩⟩

/-! ## Ranking the candidates -/

variable {documents : List (StoredDocument T)}

theorem passing_eq {filter : Option (MetadataFilter T)} {passed : List (StoredDocument T)}
    (h : passing filter documents = .ok passed) : passed = documents.filter (HybridIndex.passes filter) := by
  induction documents generalizing passed with
  | nil => exact (Except.ok.inj h).symm
  | cons stored documents ih =>
    obtain ⟨accepted, haccepted, h⟩ := of_bind_ok h
    obtain ⟨others, hothers, h⟩ := of_bind_ok h
    cases h
    rw [ih hothers, List.filter_cons]
    have hpasses : HybridIndex.passes filter stored = accepted := by
      unfold HybridIndex.passes
      cases filter with
      | none => exact Except.ok.inj haccepted
      | some filter =>
        have hmatches : matchesFilter filter stored.document = .ok accepted := haccepted
        rw [Option.all_some, hmatches]
        cases accepted
        · rfl
        · rfl
    rw [hpasses]

theorem passing_returns {filter : Option (MetadataFilter T)}
    (h : ∀ stored ∈ documents, ∀ f, filter = some f → ∃ accepted, matchesFilter f stored.document = .ok accepted) :
    ∃ passed, passing filter documents = .ok passed := by
  induction documents with
  | nil => exact ⟨[], rfl⟩
  | cons stored documents ih =>
    obtain ⟨others, hothers⟩ := ih (fun stored' hstored' => h stored' (List.mem_cons_of_mem _ hstored'))
    have haccepted : ∃ accepted, (filter.map (fun f => matchesFilter f stored.document)).getD (pure true) = .ok accepted := by
      cases filter with
      | none => exact ⟨true, rfl⟩
      | some f => exact h stored List.mem_cons_self f rfl
    obtain ⟨accepted, haccepted⟩ := haccepted
    unfold passing
    rw [haccepted, hothers]
    exact ⟨_, rfl⟩

theorem Sound.lexical_eq (h : Sound index) (request : Request T) (vector : Option (List ℚ))
    (stored : StoredDocument T) :
    (⟨stored, fuse request.weights (unique request.queryTokens) (index.lexical request.queryTokens stored)
      ((vector.map (fun vector => cosine vector stored.vector)).getD 0)⟩ : ScoredDocument T S)
      = index.naiveScore request vector stored := by
  have hfrequency : (fun token => (index.documentFrequency.get? token).getD 0)
      = fun token => (recountFrequency index.documents.values token : Int) := by
    funext token
    rw [h.counted.frequency]
    split_ifs with hzero
    · rw [hzero]
      rfl
    · rfl
  have hsize : index.documents.values.length = index.documents.size := List.length_map _
  unfold HybridIndex.naiveScore HybridIndex.lexical HybridIndex.averageDocumentLength
  dsimp only
  rw [hfrequency, hsize, h.counted.length]
  norm_cast

/-- The vector of the query, when there is one, has the dimension of the stored vectors. -/
def Fits (vector : Option (List ℚ)) (documents : List (StoredDocument T)) : Prop :=
  ∀ stored ∈ documents, ∀ query, vector = some query → query.length = stored.vector.length

variable {vector : Option (List ℚ)}

theorem Sound.scoreCandidate (h : Sound index) (request : Request T)
    (hfits : ∀ query, vector = some query → query.length = stored.vector.length) :
    index.scoreCandidate (S := S) request.weights request.queryTokens vector stored
      = .ok (index.naiveScore request vector stored) := by
  rw [← h.lexical_eq]
  unfold HybridIndex.scoreCandidate
  cases vector with
  | none => rfl
  | some query =>
    have hcosine : cosineSimilarity query stored.vector = .ok (cosine (S := S) query stored.vector) :=
      if_neg (not_not_intro (hfits query rfl))
    dsimp only [Option.map_some, Option.getD_some]
    rw [hcosine]
    rfl

theorem Sound.topK (h : Sound index) (request : Request T) (limit : Nat) {candidates : List (StoredDocument T)}
    (hfits : Fits vector candidates) :
    index.topK (S := S) request.weights request.queryTokens vector request.minimumScore limit candidates
      = .ok (((candidates.map (index.naiveScore request vector)).filter (HybridIndex.kept request.minimumScore)).foldl
          (WorstHeap.offer compareScoredDocuments limit) #[]) := by
  unfold HybridIndex.topK
  generalize (#[] : Array (ScoredDocument T S)) = heap
  induction candidates generalizing heap with
  | nil => rfl
  | cons stored candidates ih =>
    have hrest : Fits vector candidates := fun stored' hstored' => hfits stored' (List.mem_cons_of_mem _ hstored')
    rw [List.foldlM_cons, h.scoreCandidate request (hfits stored List.mem_cons_self)]
    dsimp only [bind, Except.bind, pure, Except.pure]
    rw [List.map_cons, List.filter_cons]
    split_ifs with hkept
    · exact ih hrest _
    · exact ih hrest _

theorem Sound.scored_perm (h : Sound index) (hlaws : HostNumber.Lawful S) (request : Request T)
    (hweights : request.weights.lexicalWeight + request.weights.vectorWeight ≠ 0)
    (hvector : request.weights.vectorWeight = 0 → vector = none) :
    ((((index.candidateDocuments request.weights (unique request.queryTokens)).filter (HybridIndex.passes request.filter)).map
        (index.naiveScore (S := S) request vector)).filter (HybridIndex.kept request.minimumScore)).Perm
      ((((index.documents.values).filter (HybridIndex.passes request.filter)).map (index.naiveScore request vector)).filter
        (fun entry => 0 < entry.parts.score ∧ ofRational request.minimumScore ≤ entry.parts.score)) := by
  have hkept : (HybridIndex.kept request.minimumScore : ScoredDocument T S → Bool)
      = fun entry => decide (0 < entry.parts.score ∧ ofRational request.minimumScore ≤ entry.parts.score) := by
    funext entry
    unfold HybridIndex.kept
    rw [Bool.eq_iff_iff]
    simp [and_comm]
  rw [← hkept]
  by_cases hzero : request.weights.vectorWeight = 0
  · -- the documents without a token of the query have score zero
    obtain rfl := hvector hzero
    have hdropped : ∀ stored ∈ index.documents.values, hasToken request.queryTokens stored = false →
        HybridIndex.kept request.minimumScore (index.naiveScore (S := S) request none stored) = false := by
      intro stored hstored htoken
      have hscore : (index.naiveScore (S := S) request none stored).parts.score = 0 := by
        refine score_fuse_zero hlaws hzero (fun hlexical => hweights ?_) _ (bm25_of_disjoint _ _ _ ?_ ?_)
        · rw [hlexical, hzero, add_zero]
        · exact h.frequencies _ stored (h.get?_iff.mpr ⟨hstored, rfl⟩)
        · intro token htokens hin
          rw [hasToken, List.any_eq_false] at htoken
          exact htoken token htokens (decide_eq_true hin)
      unfold HybridIndex.kept
      rw [hscore]
      simp
    rw [List.filter_map, List.filter_map, List.filter_filter, List.filter_filter]
    refine (((h.candidates_perm hzero request.queryTokens).filter _).trans ?_).map _
    rw [List.filter_filter]
    refine List.Perm.of_eq (List.filter_congr (fun stored hstored => ?_))
    dsimp only [Function.comp]
    cases htoken : hasToken request.queryTokens stored with
    | true => rw [Bool.and_true]
    | false => rw [hdropped stored hstored htoken, Bool.and_false, Bool.false_and]
  · rw [HybridIndex.candidateDocuments, if_neg hzero]

theorem Sound.naiveScore_injective (h : Sound index) (request : Request T)
    (hdocuments : ∀ stored ∈ documents, stored ∈ index.documents.values) {p : ScoredDocument T S → Bool}
    {left right : ScoredDocument T S} (hleft : left ∈ (documents.map (index.naiveScore request vector)).filter p)
    (hright : right ∈ (documents.map (index.naiveScore request vector)).filter p)
    (hkey : rankKey left = rankKey right) :
    left = right := by
  obtain ⟨a, ha, rfl⟩ := List.mem_map.mp (List.mem_filter.mp hleft).1
  obtain ⟨b, hb, rfl⟩ := List.mem_map.mp (List.mem_filter.mp hright).1
  have hid : a.document.id = b.document.id := id_of_rankKey hkey
  have hgeta := h.get?_iff.mpr ⟨hdocuments a ha, hid⟩
  rw [h.get?_iff.mpr ⟨hdocuments b hb, rfl⟩] at hgeta
  rw [Option.some.inj hgeta]

theorem Sound.mem_candidates (h : Sound index) {queryTokens : List String}
    (hstored : stored ∈ index.candidateDocuments weights (unique queryTokens)) :
    stored ∈ index.documents.values := by
  by_cases hzero : weights.vectorWeight = 0
  · exact (List.mem_filter.mp ((h.candidates_perm hzero queryTokens).mem_iff.mp hstored)).1
  · rwa [HybridIndex.candidateDocuments, if_neg hzero] at hstored

variable {answer : Except JsError (List Number)}

theorem Sound.fits (h : Sound index) (hvector : index.queryVector weights answer = .ok vector) :
    Fits vector index.documents.values := by
  intro stored hstored query hquery
  have hdimension := h.dimension _ stored (h.get?_iff.mpr ⟨hstored, rfl⟩)
  unfold HybridIndex.queryVector at hvector
  split_ifs at hvector
  · obtain ⟨values, -, hvector⟩ := of_bind_ok hvector
    rw [hdimension] at hvector
    dsimp only at hvector
    split_ifs at hvector with hlength
    rw [hquery] at hvector
    obtain rfl := Option.some.inj (Except.ok.inj hvector)
    exact not_ne_iff.mp hlength
  · rw [← Except.ok.inj hvector] at hquery
    cases hquery

theorem queryVector_of_zero (hzero : weights.vectorWeight = 0) : index.queryVector weights answer = .ok none := by
  unfold HybridIndex.queryVector
  rw [hzero, if_neg (lt_irrefl 0)]
  rfl

theorem Sound.rank (h : Sound index) (hlaws : HostNumber.Lawful S) (request : Request T)
    (hweights : request.weights.lexicalWeight + request.weights.vectorWeight ≠ 0) (hlimit : 0 < request.limit)
    (hvector : index.queryVector request.weights answer = .ok vector) (filterApplied : Bool) :
    index.rank (S := S) request.weights request.queryTokens filterApplied request.minimumScore request.limit answer
        ((index.candidateDocuments request.weights (unique request.queryTokens)).filter (HybridIndex.passes request.filter))
      = .ok (results request.weights filterApplied ((index.naiveList request vector).take request.limit)) := by
  have hnone : request.weights.vectorWeight = 0 → vector = none := by
    intro hzero
    rw [queryVector_of_zero hzero] at hvector
    exact (Except.ok.inj hvector).symm
  have hperm := h.scored_perm hlaws request hweights hnone
  have hcandidates : ∀ stored ∈ (index.candidateDocuments request.weights (unique request.queryTokens)).filter
      (HybridIndex.passes request.filter), stored ∈ index.documents.values :=
    fun stored hstored => h.mem_candidates (List.mem_filter.mp hstored).1
  generalize (index.candidateDocuments request.weights (unique request.queryTokens)).filter
    (HybridIndex.passes request.filter) = candidates at *
  have hsorted : sortBy compareScoredDocuments
      ((candidates.map (index.naiveScore (S := S) request vector)).filter (HybridIndex.kept request.minimumScore))
        = index.naiveList request vector := by
    refine sortBy_eq compares_scoredDocuments ?_ ((sortBy_perm _ _).trans hperm.symm)
      (sortBy_sorted compares_scoredDocuments _)
    exact fun left hleft right hright hkey => h.naiveScore_injective request hcandidates hleft hright hkey
  unfold HybridIndex.rank
  split_ifs with hempty
  · have hnothing : index.naiveList (S := S) request vector = [] := by
      rw [← hsorted, List.length_eq_zero_iff.mp hempty]
      rfl
    rw [hnothing, List.take_nil]
    rfl
  · rw [hvector]
    dsimp only [bind, Except.bind]
    rw [h.topK request request.limit (fun stored hstored => h.fits hvector stored (hcandidates stored hstored))]
    dsimp only
    rw [WorstHeap.sortBy_foldl_offer compares_scoredDocuments hlimit
      (fun left hleft right hright hkey => h.naiveScore_injective request hcandidates hleft hright hkey), hsorted,
      List.take_take, min_self]
    rfl

/-! ## The whole search -/

variable {query : String} {options : SearchOptions T}

theorem request_ok {request : Request T} (h : index.request query options = .ok request) :
    validateLimit options.limit = .ok request.limit
      ∧ validateCandidateLimit options.candidateLimit request.limit = .ok ()
      ∧ resolveWeights options.lexicalWeight options.vectorWeight index.defaultLexicalWeight index.defaultVectorWeight
        = .ok request.weights
      ∧ validateMinScore options.minScore = .ok request.minimumScore ∧ resolveFilter options = .ok request.filter
      ∧ tokenize index.tokenizer query = .ok request.queryTokens := by
  obtain ⟨limit, hlimit, h⟩ := of_bind_ok h
  obtain ⟨⟨⟩, hcandidate, h⟩ := of_bind_ok h
  obtain ⟨weights, hweights, h⟩ := of_bind_ok h
  obtain ⟨minimumScore, hminimum, h⟩ := of_bind_ok h
  obtain ⟨filter, hfilter, h⟩ := of_bind_ok h
  obtain ⟨queryTokens, htokens, h⟩ := of_bind_ok h
  cases h
  exact ⟨hlimit, hcandidate, hweights, hminimum, hfilter, htokens⟩

theorem naiveSearch_nil {query : String} {limit : Nat} (hlimit : validateLimit options.limit = .ok limit)
    (h : limit = 0 ∨ index.documents.size = 0) (answer : Except JsError (List Number)) :
    index.naiveSearch (S := S) query options answer = [] := by
  unfold HybridIndex.naiveSearch
  cases hrequest : index.request query options with
  | error error => rfl
  | ok request =>
    obtain ⟨hlimit', -⟩ := request_ok hrequest
    rw [hlimit] at hlimit'
    cases hlimit'
    dsimp only
    rcases h with hzero | hempty
    · rw [hzero]
      rfl
    · have hvalues : index.documents.values = [] := by
        rw [OrderedMap.values, List.length_eq_zero_iff.mp hempty]
        rfl
      unfold HybridIndex.naiveList
      rw [hvalues, List.filter_nil, List.map_nil, List.filter_nil]
      have hsorted : sortBy compareScoredDocuments ([] : List (ScoredDocument T S)) = [] := rfl
      rw [hsorted, List.take_nil]
      rfl

theorem naiveSearch_eq {request : Request T} (h : index.request query options = .ok request)
    (answer : Except JsError (List Number)) :
    index.naiveSearch (S := S) query options answer = results request.weights request.filter.isSome
        ((index.naiveList request (((index.queryVector request.weights answer).toOption).getD none)).take request.limit) := by
  unfold HybridIndex.naiveSearch
  rw [h]

theorem Sound.search_naive (h : Sound index) (hlaws : HostNumber.Lawful S) {found : List (HybridSearchResult T S)}
    (hfound : index.search query options answer = .ok found) :
    found = if (trim query).length = 0 then [] else index.naiveSearch query options answer := by
  obtain ⟨limit, hlimit, hfound⟩ := of_bind_ok hfound
  obtain ⟨⟨⟩, hcandidate, hfound⟩ := of_bind_ok hfound
  split_ifs at hfound with hnothing
  · cases hfound
    split_ifs with hblank
    · rfl
    · refine (naiveSearch_nil hlimit ?_ answer).symm
      rcases hnothing with hzero | hblank' | hempty
      · exact .inl hzero
      · exact absurd hblank' hblank
      · exact .inr hempty
  · simp only [not_or] at hnothing
    obtain ⟨hpositive, hblank, -⟩ := hnothing
    rw [if_neg hblank]
    obtain ⟨weights, hweights, hfound⟩ := of_bind_ok hfound
    obtain ⟨minimumScore, hminimum, hfound⟩ := of_bind_ok hfound
    obtain ⟨filter, hfilter, hfound⟩ := of_bind_ok hfound
    obtain ⟨queryTokens, htokens, hfound⟩ := of_bind_ok hfound
    obtain ⟨candidates, hpassing, hfound⟩ := of_bind_ok hfound
    have hrequest : index.request query options = .ok ⟨limit, weights, minimumScore, filter, queryTokens⟩ := by
      unfold HybridIndex.request
      rw [hlimit, ok_bind, hcandidate, ok_bind, hweights, ok_bind, hminimum, ok_bind, hfilter, ok_bind, htokens, ok_bind]
      rfl
    rw [naiveSearch_eq hrequest]
    have hsum := weights_ne_zero hweights
    obtain rfl := passing_eq hpassing
    cases hvector : index.queryVector weights answer with
    | ok vector =>
      have hrank := h.rank hlaws ⟨limit, weights, minimumScore, filter, queryTokens⟩ hsum (Nat.pos_of_ne_zero hpositive)
        hvector filter.isSome
      rw [hfound] at hrank
      exact Except.ok.inj hrank
    | error error =>
      -- no answer of the provider was needed
      have hnonzero : weights.vectorWeight ≠ 0 := by
        intro hzero
        rw [queryVector_of_zero hzero] at hvector
        cases hvector
      unfold HybridIndex.rank at hfound
      rw [hvector] at hfound
      split_ifs at hfound with hempty
      · cases hfound
        rw [HybridIndex.candidateDocuments, if_neg hnonzero, List.length_eq_zero_iff] at hempty
        unfold HybridIndex.naiveList
        rw [hempty]
        have hsorted : sortBy compareScoredDocuments ([] : List (ScoredDocument T S)) = [] := rfl
        rw [List.map_nil, List.filter_nil, hsorted, List.take_nil]
        rfl
      · cases hfound

theorem Sound.search_returns (h : Sound index) (hlaws : HostNumber.Lawful S)
    (hanswerable : index.Answerable query options answer) :
    ∃ found, index.search (S := S) query options answer = .ok found := by
  obtain ⟨request, hrequest, ⟨vector, hvector⟩, hfilters⟩ := hanswerable
  obtain ⟨hlimit, hcandidate, hweights, hminimum, hfilter, htokens⟩ := request_ok hrequest
  unfold HybridIndex.search
  rw [hlimit, ok_bind, hcandidate, ok_bind]
  split_ifs with hnothing
  · exact ⟨[], rfl⟩
  · simp only [not_or] at hnothing
    have hanswers : ∀ stored ∈ index.candidateDocuments request.weights (unique request.queryTokens), ∀ f,
        request.filter = some f → ∃ accepted, matchesFilter f stored.document = .ok accepted :=
      fun stored hstored => hfilters stored (h.mem_candidates hstored)
    obtain ⟨passed, hpassed⟩ := passing_returns hanswers
    unfold HybridIndex.searchDocuments
    rw [hweights, ok_bind, hminimum, ok_bind, hfilter, ok_bind, htokens, ok_bind, hpassed, ok_bind]
    obtain rfl := passing_eq hpassed
    exact ⟨_, h.rank hlaws request (weights_ne_zero hweights) (Nat.pos_of_ne_zero hnothing.1) hvector _⟩

/-- Rational numbers. The searches below take no logarithm, and the square root of 1 only. -/
instance rationalNumbers : HostNumber ℚ where
  ofRational := id
  log := fun x => x - 1
  sqrt := id

theorem lawful_rationalNumbers : HostNumber.Lawful ℚ where
  mul_zero := mul_zero
  add_zero := add_zero
  zero_div := fun x _ => zero_div x
  ofRational_zero := rfl
  ofRational_ne_zero := fun _ h => h

/-- An index after one `upsert`, whose provider answers every text with the same vector. -/
def oneDocument : HybridIndex Unit :=
  wordIndex.change (.upsert { id := "a", text := "alpha" } (.ok [.finite 1]))

theorem reachable_oneDocument : (changes (T := Unit) wordOptions).Reachable oneDocument :=
  .step (i := .upsert { id := "a", text := "alpha" } (.ok [.finite 1])) (.init (s := wordIndex) new_wordOptions) rfl

/-- In every index that completed calls reach, the statistics are those of the stored documents, and a search
that returns gives the first results of the naive search, or none for a blank query. A search whose options
pass the checks returns. -/
theorem search_eq_naive {options : HybridIndexOptions} {index : HybridIndex T}
    (hlaws : HostNumber.Lawful S) (h : (changes (T := T) options).Reachable index) :
    Recounted index index.documents.values
      ∧ ∀ query searchOptions answer,
        (∀ found, index.search (S := S) query searchOptions answer = .ok found →
          found = if (trim query).length = 0 then [] else index.naiveSearch query searchOptions answer)
        ∧ (index.Answerable query searchOptions answer →
          ∃ found, index.search (S := S) query searchOptions answer = .ok found) := by
  have hsound := sound_of_reachable h
  refine ⟨hsound.counted, fun query searchOptions answer => ⟨?_, ?_⟩⟩
  · exact fun found hfound => hsound.search_naive hlaws hfound
  · exact hsound.search_returns hlaws

theorem search_eq_naive_beta :
    ∃ found, oneDocument.search (S := ℚ) "beta" {} (.ok [.finite 1]) = .ok found
      ∧ found = oneDocument.naiveSearch "beta" {} (.ok [.finite 1]) ∧ found.length = 1 := by
  have hreturns : ((oneDocument.search (S := ℚ) "beta" {} (.ok [.finite 1])).toOption.map List.length) = some 1 := by
    decide +kernel
  cases hfound : oneDocument.search (S := ℚ) "beta" {} (.ok [.finite 1]) with
  | error error =>
    rw [hfound] at hreturns
    cases hreturns
  | ok found =>
    rw [hfound] at hreturns
    have hnaive := ((search_eq_naive lawful_rationalNumbers reachable_oneDocument).2 "beta" {} (.ok [.finite 1])).1 found hfound
    rw [if_neg (by decide +kernel)] at hnaive
    exact ⟨found, rfl, hnaive, Option.some.inj hreturns⟩

/-- A blank query has no results, although the provider may answer it with a vector. -/
theorem not_search_eq_naive :
    ¬ ∀ query searchOptions answer found, oneDocument.search (S := ℚ) query searchOptions answer = .ok found →
      found = oneDocument.naiveSearch query searchOptions answer := by
  intro h
  have hfound : oneDocument.search (S := ℚ) " " {} (.ok [.finite 1]) = .ok [] := rfl
  have hnaive : (oneDocument.naiveSearch (S := ℚ) " " {} (.ok [.finite 1])).length = 1 := by decide +kernel
  rw [← h " " {} (.ok [.finite 1]) [] hfound] at hnaive
  cases hnaive

end Premise.IndexHybrid
