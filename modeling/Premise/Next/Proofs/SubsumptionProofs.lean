import Premise.Next.Proofs.ReceiptsProofs

/-!
# Proofs: receipt subsumption

Which well-formed receipts are eligible, and which of them is selected.
-/

namespace Premise.Next

open Collections Js Python

variable {T κ : Type} [LinearOrder κ]

section Eligibility

variable {candidate : ReceiptCandidate T} {requirement : ReceiptRequirement}

theorem assess_cases (hcandidate : WellFormedCandidate candidate) (hrequirement : WellFormedRequirement requirement) :
    ∃ reason, assessReceiptSubsumption candidate requirement = answer candidate reason ∧
      (reason = .match_ ↔ Observed candidate requirement ∧ ¬ Expired candidate requirement ∧ Covers candidate requirement
        ∧ joinNul candidate.scope.causalFrontier = joinNul requirement.scope.causalFrontier) := by
  have hchecked : Checked candidate requirement := ⟨hcandidate, hrequirement.scope, hrequirement.now⟩
  by_cases hobserved : Observed candidate requirement
  · by_cases hexpired : Expired candidate requirement
    · exact ⟨_, assess_expired hchecked hobserved hexpired, iff_of_false (by decide) (fun h => h.2.1 hexpired)⟩
    · refine ⟨_, assess_reason hcandidate hrequirement hobserved hexpired, ?_⟩
      rw [pureReason_eq_match, decide_eq_true_eq]
      exact ⟨fun h => ⟨hobserved, hexpired, h⟩, fun h => h.2.2⟩
  · exact ⟨_, assess_unobserved hchecked hobserved, iff_of_false (by decide) (fun h => hobserved h.1)⟩

theorem eligible_subsumes_iff (hcandidate : WellFormedCandidate candidate)
    (hrequirement : WellFormedRequirement requirement) :
    (Eligible requirement candidate ↔ Subsumes candidate requirement) ↔ ¬ StandsIn candidate requirement := by
  obtain ⟨reason, hassess, hreason⟩ := assess_cases hcandidate hrequirement
  have heligible : Eligible requirement candidate ↔ reason = .match_ := by
    unfold Eligible
    rw [hassess]
    exact eligible_answer candidate reason
  rw [heligible, hreason]
  constructor
  · rintro h ⟨hcovers, ⟨hne, hjoin⟩, hobserved, hunexpired⟩
    exact hne (h.mp ⟨⟨hobserved.trans_lt hunexpired, hobserved⟩, not_le.mpr hunexpired, hcovers, hjoin⟩).frontiers
  · intro h
    constructor
    · rintro ⟨⟨-, hobserved⟩, hexpired, hcovers, hjoin⟩
      have hunexpired := not_le.mp hexpired
      by_cases hsame : candidate.scope.causalFrontier = requirement.scope.causalFrontier
      · exact ⟨hcovers, hsame, hobserved, hunexpired⟩
      · exact absurd ⟨hcovers, ⟨hsame, hjoin⟩, hobserved, hunexpired⟩ h
    · rintro ⟨hcovers, hsame, hobserved, hunexpired⟩
      exact ⟨⟨hobserved.trans_lt hunexpired, hobserved⟩, not_le.mpr hunexpired, hcovers, by rw [hsame]⟩

end Eligibility

/-- Of the eligible receipts the first is selected, and exactly the subsuming ones are eligible when none of the
    candidates stands in for a receipt with another causal frontier. -/
theorem subsumption_iff {localeCompare : String → String → Int} {collationKey : String → κ}
    (hlocale : Compares localeCompare collationKey) {candidates : List (ReceiptCandidate T)} {requirement : ReceiptRequirement}
    (hcandidates : ∀ c ∈ candidates, WellFormedCandidate c) (hrequirement : WellFormedRequirement requirement) :
    Subsumption localeCompare collationKey candidates requirement
      ↔ ∀ candidate ∈ candidates, ¬ StandsIn candidate requirement := by
  constructor
  · intro h candidate hcandidate
    exact (eligible_subsumes_iff (hcandidates candidate hcandidate) hrequirement).mp (h.eligible candidate hcandidate)
  · intro h
    refine ⟨fun c hc => (eligible_subsumes_iff (hcandidates c hc) hrequirement).mpr (h c hc), fun order horder hsome => ?_⟩
    obtain ⟨c, hc, heligible⟩ := hsome
    obtain ⟨best, hbest⟩ : ∃ best, FirstBest (receiptRank collationKey) (Eligible requirement) order best :=
      exists_firstBest (horder.mem_iff.mpr hc) heligible
    have hselected : (selectSubsumingReceipt localeCompare order requirement).receipt = some best := by
      refine (receipt_selectSubsumingReceipt hlocale (fun c hc => ?_) (fun c _ => Iff.rfl) best).mpr hbest
      obtain ⟨reason, hassess, -⟩ := assess_cases (hcandidates c (horder.mem_iff.mp hc)) hrequirement
      exact ⟨reason, hassess⟩
    exact ⟨best, horder.mem_iff.mp hbest.mem.1, hselected, hbest.mem.2,
      fun c hc heligible => hbest.least (horder.mem_iff.mpr hc) heligible⟩

/-- The requirement of the sample, at a causal frontier. -/
def requirementAt (causalFrontier : List String) : ReceiptRequirement :=
  { sampleRequirement with scope := { sampleScope with causalFrontier }, requiredFrontier := [] }

def receiptAt (causalFrontier : List String) : ReceiptCandidate Unit :=
  { sampleReceipt "a" 1 with scope := { sampleScope with causalFrontier } }

theorem wellFormedScope_at {causalFrontier : List String} (h : StringSet causalFrontier) :
    WellFormedScope { sampleScope with causalFrontier } := by
  have hplain := wellFormedScope_plain plainScope_sample (by unfold Ascending; decide)
  have hlists := hplain.lists
  simp only [ReceiptScope.lists, List.forall_mem_cons] at hlists
  refine ⟨hplain.texts, ?_⟩
  simp only [ReceiptScope.lists, List.forall_mem_cons]
  exact ⟨hlists.1, hlists.2.1, h, hlists.2.2.2⟩

theorem wellFormed_receiptAt {causalFrontier : List String} (h : StringSet causalFrontier) :
    WellFormedCandidate (receiptAt causalFrontier) :=
  ⟨show Js.nonEmpty "a" = true by decide, wellFormedScope_at h, isTimestamp_utc (utcTimestamp_sampleMinute (by decide)),
    isTimestamp_utc (utcTimestamp_sampleMinute le_rfl)⟩

theorem wellFormed_requirementAt {causalFrontier : List String} (h : StringSet causalFrontier) :
    WellFormedRequirement (requirementAt causalFrontier) where
  scope := wellFormedScope_at h
  queryParts := show StringSet ["p1"] from ⟨by decide, by decide⟩
  scopes := show StringSet ["read"] from ⟨by decide, by decide⟩
  frontier := show StringSet [] from ⟨by decide, by decide⟩
  now := isTimestamp_utc (utcTimestamp_sampleMinute (by decide))

theorem subsumption_iff_sample :
    Subsumption Reference.comparePoints codePoints [receiptAt ["a", "b"]] (requirementAt ["a", "b"])
      ↔ ∀ candidate ∈ [receiptAt ["a", "b"]], ¬ StandsIn candidate (requirementAt ["a", "b"]) :=
  subsumption_iff compares_points (by
    rw [List.forall_mem_singleton]
    exact wellFormed_receiptAt ⟨by decide, by decide⟩)
    (wellFormed_requirementAt ⟨by decide, by decide⟩)

/-- The frontiers are joined by U+0000: one entry with that character stands for two entries. -/
theorem not_subsumption : ¬ ∀ (candidates : List (ReceiptCandidate Unit)) (requirement : ReceiptRequirement),
    (∀ c ∈ candidates, WellFormedCandidate c) → WellFormedRequirement requirement →
    Subsumption Reference.comparePoints codePoints candidates requirement := by
  intro h
  have hsubsumption := h [receiptAt ["a\x00b"]] (requirementAt ["a", "b"]) (by
    rw [List.forall_mem_singleton]
    exact wellFormed_receiptAt ⟨by decide, by decide⟩)
    (wellFormed_requirementAt ⟨by decide, by decide⟩)
  have heligible : Eligible (requirementAt ["a", "b"]) (receiptAt ["a\x00b"]) := by
    unfold Eligible
    decide +kernel
  have hsame := ((hsubsumption.eligible _ (List.mem_singleton_self _)).mp heligible).frontiers
  exact absurd hsame (by decide)

end Premise.Next
