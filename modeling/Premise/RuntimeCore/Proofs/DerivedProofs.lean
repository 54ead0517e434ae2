import Premise.RuntimeCore.Proofs.MutationProofs

/-!
# The evidence of derived records

A derived record has one item for each evidence id of its sources: the last one. Nothing is lost exactly when the items
of one id are about one version of one source.
-/

namespace Premise.RuntimeCore

open Collections Control Js Protocol
open Control.Command

def evidenceTriple (item : EvidenceReference) : String × String × Option VersionReference :=
  (item.evidenceId, item.sourceUri, item.version)

def sourceItems (sources : List RuntimeRecord) : List EvidenceReference :=
  sources.flatMap (fun source => source.envelope.evidence)

/-- The record has an item for the id, the source and the version of every item of its sources. -/
def CarriesEvidence (sources : List RuntimeRecord) (record : RuntimeRecord) : Prop :=
  ∀ item ∈ sourceItems sources, ∃ own ∈ record.envelope.evidence, evidenceTriple own = evidenceTriple item

/-- Items of the sources that have one id are about one version of one source. -/
def SourcesAgree (sources : List RuntimeRecord) : Prop :=
  ∀ item ∈ sourceItems sources, ∀ item' ∈ sourceItems sources, item.evidenceId = item'.evidenceId →
    item.sourceUri = item'.sourceUri ∧ item.version = item'.version

instance (sources : List RuntimeRecord) : Decidable (SourcesAgree sources) :=
  inferInstanceAs (Decidable (∀ item ∈ sourceItems sources, ∀ item' ∈ sourceItems sources, _ → _))

section Merge

variable {items : List EvidenceReference} {item own : EvidenceReference}

def itemsById (items : List EvidenceReference) : OrderedMap String EvidenceReference :=
  OrderedMap.ofList (items.map (fun item => (item.evidenceId, item)))

theorem itemsById_get? {id : String} (h : (itemsById items).get? id = some own) : own ∈ items ∧ own.evidenceId = id := by
  have hentry := OrderedMap.mem_of_mem_ofList ((OrderedMap.get?_eq_some_iff _).mp h)
  obtain ⟨found, hfound, hpair⟩ := List.mem_map.mp hentry
  obtain ⟨hid, rfl⟩ := Prod.mk.inj hpair
  exact ⟨hfound, hid⟩

theorem mem_itemsById : own ∈ (itemsById items).values ↔ (itemsById items).get? own.evidenceId = some own := by
  rw [OrderedMap.mem_values]
  constructor
  · rintro ⟨id, hid⟩
    have hown := (itemsById_get? hid).2
    rw [hown]
    exact hid
  · exact fun h => ⟨own.evidenceId, h⟩

theorem exists_itemsById (h : item ∈ items) :
    ∃ own ∈ (itemsById items).values, own ∈ items ∧ own.evidenceId = item.evidenceId := by
  have hkey : item.evidenceId ∈ (itemsById items).keys :=
    OrderedMap.mem_keys_ofList.mpr ⟨_, List.mem_map_of_mem h, rfl⟩
  obtain ⟨own, hown⟩ := (OrderedMap.mem_keys _).mp hkey
  obtain ⟨hmem, hid⟩ := itemsById_get? hown
  exact ⟨own, (OrderedMap.mem_values _).mpr ⟨_, hown⟩, hmem, hid⟩

end Merge

theorem derivedRecord_carries (host : RuntimeHost) (tenant claim : String) (sources : List RuntimeRecord) :
    CarriesEvidence sources (derivedRecord host tenant claim sources) ↔ SourcesAgree sources := by
  have hevidence : (derivedRecord host tenant claim sources).envelope.evidence = (itemsById (sourceItems sources)).values := rfl
  unfold CarriesEvidence
  rw [hevidence]
  constructor
  · intro h item hitem item' hitem' hid
    obtain ⟨own, hown, htriple⟩ := h item hitem
    obtain ⟨own', hown', htriple'⟩ := h item' hitem'
    obtain ⟨hownId, hownUri, hownVersion⟩ : own.evidenceId = item.evidenceId ∧ own.sourceUri = item.sourceUri
        ∧ own.version = item.version := by simpa [evidenceTriple] using htriple
    obtain ⟨hownId', hownUri', hownVersion'⟩ : own'.evidenceId = item'.evidenceId ∧ own'.sourceUri = item'.sourceUri
        ∧ own'.version = item'.version := by simpa [evidenceTriple] using htriple'
    -- Under one id one item is kept.
    have hsame : own = own' := by
      have hget := mem_itemsById.mp hown
      have hget' := mem_itemsById.mp hown'
      rw [hownId'.trans (hid.symm.trans hownId.symm)] at hget'
      exact Option.some.inj (hget.symm.trans hget')
    exact ⟨hownUri.symm.trans ((congrArg _ hsame).trans hownUri'),
      hownVersion.symm.trans ((congrArg _ hsame).trans hownVersion')⟩
  · intro h item hitem
    obtain ⟨own, hown, hmem, hid⟩ := exists_itemsById hitem
    obtain ⟨huri, hversion⟩ := h own hmem item hitem hid
    refine ⟨own, hown, ?_⟩
    unfold evidenceTriple
    rw [hid, huri, hversion]

variable {P K : Type} {host : RuntimeHost} {o : RuntimeOptions P K}

namespace PremiseSession

open PremiseRuntime

theorem of_currentSource_ok {premise : PremiseSessionPremise} {w w' : RuntimeState} {source : RuntimeRecord}
    (h : currentSource o premise w = (w', .ok source)) : w' = w ∧ w.store.get premise.memoryId = some source := by
  unfold currentSource at h
  obtain ⟨w₁, u, hchecked, h1⟩ := Command.of_bind_ok h
  obtain ⟨-, rfl⟩ := of_rejectIf_ok hchecked
  obtain ⟨w₂, found, hfound, h2⟩ := Command.of_bind_ok h1
  cases found with
  | none => cases h2
  | some found =>
    obtain ⟨hw, hstored, -⟩ := of_get_some hfound
    obtain ⟨rfl, hsource⟩ := Prod.mk.inj h2
    cases hsource
    exact ⟨hw, hstored⟩

theorem of_currentSources_ok {premises : List PremiseSessionPremise} {w w' : RuntimeState} {sources : List RuntimeRecord}
    (h : Command.mapEach (currentSource o) premises w = (w', .ok sources)) :
    w' = w ∧ List.Forall₂ (fun premise source => w.store.get premise.memoryId = some source) premises sources := by
  induction premises generalizing w sources with
  | nil =>
    obtain ⟨rfl, rfl⟩ := of_mapEach_nil_ok h
    exact ⟨rfl, .nil⟩
  | cons premise premises ih =>
    obtain ⟨w₁, source, rest, hfirst, hrest, rfl⟩ := of_mapEach_cons_ok h
    obtain ⟨rfl, hstored⟩ := of_currentSource_ok hfirst
    obtain ⟨rfl, hsources⟩ := ih hrest
    exact ⟨rfl, .cons hstored hsources⟩

theorem of_derive_ok {input : PremiseSessionDeriveInput} {w w' : RuntimeState} {premise : PremiseSessionPremise}
    (h : derive host o input w = (w', .ok premise)) :
    ∃ sources, List.Forall₂ (fun p source => w.store.get p.memoryId = some source) input.premises sources ∧
      premise.memoryId = (derivedRecord host o.tenantId input.claim sources).envelope.memoryId ∧
      (w.store.getEvent ("session:derive:" ++ premise.memoryId) = none →
        w'.store.get premise.memoryId = some (derivedRecord host o.tenantId input.claim sources)) := by
  unfold derive at h
  obtain ⟨w₁, u1, hclaim, h1⟩ := Command.of_bind_ok h
  obtain ⟨-, rfl⟩ := of_rejectIf_ok hclaim
  obtain ⟨w₂, u2, hpremises, h2⟩ := Command.of_bind_ok h1
  obtain ⟨-, rfl⟩ := of_rejectIf_ok hpremises
  obtain ⟨w3, sources, hsources, h3⟩ := Command.of_bind_ok h2
  obtain ⟨rfl, hstored⟩ := of_currentSources_ok hsources
  dsimp only at h3
  generalize hderivation : PremiseRuntime.derive host o _ _ = derivation at h3
  obtain ⟨w4, u4, hderived, h4⟩ := Command.of_bind_ok h3
  subst hderivation
  obtain ⟨w5, shown, hshown, h5⟩ := Command.of_bind_ok h4
  obtain ⟨rfl, hpremise⟩ := Prod.mk.inj h5
  cases hpremise
  obtain ⟨rfl, -⟩ := of_get_ok hshown
  exact ⟨sources, hstored, rfl, fun hkey => (PremiseRuntime.of_derive_ok hderived).get hkey⟩

end PremiseSession

/-- The record that a session derives carries every triple of its sources exactly when the sources agree; a derivation
that succeeds under a new key has stored that record. -/
theorem derived_evidence_iff (host : RuntimeHost) (o : RuntimeOptions P K) :
    (∀ tenant claim sources,
      CarriesEvidence sources (derivedRecord host tenant claim sources) ↔ SourcesAgree sources) ∧
    ∀ input w w' premise, PremiseSession.derive host o input w = (w', .ok premise) →
      ∃ sources, List.Forall₂ (fun p source => w.store.get p.memoryId = some source) input.premises sources ∧
        premise.memoryId = (derivedRecord host o.tenantId input.claim sources).envelope.memoryId ∧
        (w.store.getEvent ("session:derive:" ++ premise.memoryId) = none →
          w'.store.get premise.memoryId = some (derivedRecord host o.tenantId input.claim sources)) :=
  ⟨fun tenant claim sources => derivedRecord_carries host tenant claim sources,
    fun _ _ _ _ h => PremiseSession.of_derive_ok h⟩

def pageDerivation : PremiseSessionDeriveInput where
  claim := "the page is short"
  premises := [{ memoryId := "page", record := some pageRecord }]

theorem derived_evidence_iff_page : ∃ premise sources,
    List.Forall₂ (fun p source => pageRuntime.store.get p.memoryId = some source) pageDerivation.premises sources ∧
      premise = (derivedRecord stillHost "default" "the page is short" sources).envelope.memoryId := by
  have hok : ((PremiseSession.derive (P := Unit) (K := Unit) stillHost {} pageDerivation pageRuntime).2).isOk = true := by
    decide +kernel
  rcases hrun : PremiseSession.derive (P := Unit) (K := Unit) stillHost {} pageDerivation pageRuntime with ⟨w', e | premise⟩
  · rw [hrun] at hok
    cases hok
  · obtain ⟨sources, hsources, hid, -⟩ := (derived_evidence_iff stillHost {}).2 pageDerivation pageRuntime w' premise hrun
    exact ⟨premise.memoryId, sources, hsources, hid⟩

/-- A memory about another page, whose item has the id that the item of the first page has. -/
def otherPageRecord : RuntimeRecord where
  envelope := { pageRecord.envelope with
    memoryId := "other page"
    evidence := [{
      evidenceId := "page#1"
      sourceUri := "file:other"
      observedAt := "1970-01-01T00:00:00Z" }] }
  content := .string "text"

/-- Two well-formed records of which one item gets lost. -/
theorem last_item_wins : ¬ ∀ host tenant claim sources, (∀ source ∈ sources, validateMemoryEnvelopeV2 source.envelope = []) →
    CarriesEvidence sources (derivedRecord host tenant claim sources) := by
  intro h
  have hvalid : ∀ source ∈ [pageRecord, otherPageRecord], validateMemoryEnvelopeV2 source.envelope = [] := by
    decide +kernel
  have hcarries := h stillHost "default" "claim" [pageRecord, otherPageRecord] hvalid
  have hagree := (derivedRecord_carries stillHost "default" "claim" [pageRecord, otherPageRecord]).mp hcarries
  exact absurd hagree (by decide +kernel)

end Premise.RuntimeCore

/-! ## Replacements

A replacement without an event id is known by its memory and its content digest. Under a new key the record is
written; under a known one nothing is, and the record that is there stays. -/

namespace Premise.RuntimeCore.PremiseRuntime

open Collections Control Js Protocol
open Control.Command

variable {P K : Type} {host : RuntimeHost} {o : RuntimeOptions P K}

/-- The key of the replacement is new, and the runtime's principal is of its tenant; or the record is there already. -/
def Replaces (o : RuntimeOptions P K) (w : RuntimeState) (memoryId : String) (record : RuntimeRecord) : Prop :=
  (w.store.getEvent (replacementKey memoryId record.envelope) = none ∧ o.principalTenant = o.tenantId) ∨
    (w.store.getEvent (replacementKey memoryId record.envelope) ≠ none ∧ w.store.get memoryId = some record)

def pageVersion (digest : String) : RuntimeRecord where
  envelope := { pageRecord.envelope with contentDigest := some digest }
  content := .string digest

/-- A page is registered, and then replaced by one version after the other. -/
def rewritten (host : RuntimeHost) (o : RuntimeOptions P K) (page : RuntimeRecord) (versions : List RuntimeRecord) :
    RuntimeCommand Unit := do
  register host o page none
  .forEach (fun version => replace host o page.envelope.memoryId version.content version.envelope none) versions

end Premise.RuntimeCore.PremiseRuntime
