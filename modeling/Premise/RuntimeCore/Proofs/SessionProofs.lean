import Premise.Control.Except
import Premise.RuntimeCore.Proofs.WriteProofs
import Premise.RuntimeCore.Session

/-!
# When a connector is asked to commit

The runtime looks at the versions and at the status of the record that it shows to the connector; the session has
looked at the same record before, for the scheme and the source as well.
-/

namespace Premise.RuntimeCore

open Collections Control Js Protocol
open Control.Command

/-- The record may be acted on by the principal at a version. -/
structure Committable (principalTenant expectedVersion : String) (record : RuntimeRecord) : Prop where
  fresh : record.envelope.validity.status = .fresh
  tenant : record.envelope.tenantId = principalTenant
  versioned : ∃ evidence ∈ record.envelope.evidence, evidence.version.isSome
  expected : ∀ evidence ∈ record.envelope.evidence, ∀ version ∈ evidence.version, version.token = expectedVersion

/-- Every item of the record has the version that the action expects, and the resource is one of its sources. -/
structure ConditionalCommit.Exact (commit : ConditionalCommit) : Prop where
  version : ∀ evidence ∈ commit.record.envelope.evidence, evidence.version = some commit.expectedVersion
  resource : ∃ evidence ∈ commit.record.envelope.evidence, evidence.sourceUri = commit.resource

/-- The commit is the one that the action asks for. -/
structure ConditionalCommit.Of (input : PremiseSessionAction) (commit : ConditionalCommit) : Prop where
  action : commit.action = input.action
  resource : ∀ resource ∈ input.resource, commit.resource = resource
  expectedVersion : ∀ version ∈ input.expectedVersion, commit.expectedVersion = version

variable {P K : Type} {host : RuntimeHost} {o : RuntimeOptions P K}

namespace PremiseRuntime

theorem usability_usable {status : V2MemoryStatus} (h : usability status = .usable) : status = .fresh := by
  cases status with
  | fresh => rfl
  | stale | invalid | unknown => cases h

theorem mem_tokens {record : RuntimeRecord} {token : String} :
    token ∈ record.envelope.evidence.filterMap (fun evidence => evidence.version.map VersionReference.token) ↔
      ∃ evidence ∈ record.envelope.evidence, ∃ version ∈ evidence.version, version.token = token := by
  simp only [List.mem_filterMap, Option.map_eq_some_iff, Option.mem_def]

theorem of_revalidateAndAct_ok {memoryId expectedVersion : String} {commits : Bool} {w w' : RuntimeState}
    {record : RuntimeRecord} (h : revalidateAndAct host o memoryId expectedVersion commits w = (w', .ok (.ok record))) :
    w.store.get memoryId = some record ∧ Committable o.principalTenant expectedVersion record := by
  obtain ⟨w₁, found, hfound, hchecked⟩ := Command.of_bind_ok h
  obtain ⟨-, hstored, htenant⟩ := of_require_ok hfound
  dsimp only at hchecked
  split at hchecked
  · cases hchecked
  next hversions =>
    obtain ⟨w₂, u, -, hdecided⟩ := Command.of_bind_ok hchecked
    cases husable : usability found.envelope.validity.status with
    | reject =>
      rw [husable] at hdecided
      cases hdecided
    | revalidate =>
      rw [husable] at hdecided
      cases hdecided
    | usable =>
      rw [husable] at hdecided
      cases commits with
      | false => cases hdecided
      | true =>
        obtain rfl := Except.ok.inj (Except.ok.inj (Prod.mk.inj hdecided).2)
        push Not at hversions
        obtain ⟨hsome, hequal⟩ := hversions
        obtain ⟨token, htoken⟩ := List.exists_mem_of_ne_nil _ hsome
        obtain ⟨evidence, hevidence, version, hversion, -⟩ := mem_tokens.mp htoken
        refine ⟨hstored, usability_usable husable, htenant, ?_, ?_⟩
        · exact ⟨evidence, hevidence, Option.isSome_iff_exists.mpr ⟨version, hversion⟩⟩
        · intro evidence hevidence version hversion
          exact hequal version.token (mem_tokens.mpr ⟨evidence, hevidence, version, hversion, rfl⟩)

end PremiseRuntime

namespace PremiseSession

open PremiseRuntime

theorem of_required_ok {value name text : String} (h : required value name = .ok text) : text = value := by
  unfold required at h
  split_ifs at h
  exact (Except.ok.inj h).symm

theorem of_actionResource_ok {current : RuntimeRecord} {named : Option String} {resource : String}
    (h : actionResource current named = .ok resource) :
    (∃ evidence ∈ current.envelope.evidence, evidence.sourceUri = resource) ∧ ∀ name ∈ named, resource = name := by
  obtain ⟨candidate, hcandidate, hfound⟩ := Control.of_bind_ok h
  cases hfilter : candidate.filter (fun resource =>
      current.envelope.evidence.any (fun evidence => decide (evidence.sourceUri = resource))) with
  | none =>
    rw [hfilter] at hfound
    cases hfound
  | some chosen =>
    rw [hfilter] at hfound
    obtain rfl := Except.ok.inj hfound
    obtain ⟨rfl, hsource⟩ := Option.filter_eq_some_iff.mp hfilter
    obtain ⟨evidence, hevidence, huri⟩ := List.any_eq_true.mp hsource
    refine ⟨⟨evidence, hevidence, of_decide_eq_true huri⟩, ?_⟩
    rintro name rfl
    have hrequired : (required name "resource").map some = .ok (some chosen) := hcandidate
    cases hname : required name "resource" with
    | error e =>
      rw [hname] at hrequired
      cases hrequired
    | ok text =>
      rw [hname] at hrequired
      obtain rfl := Option.some.inj (Except.ok.inj hrequired)
      exact of_required_ok hname

theorem of_act_ok {conditionalAction : Bool} {input : PremiseSessionAction} {w w' : RuntimeState}
    {commit : ConditionalCommit} (h : act host o conditionalAction input w = (w', .ok (.ok commit))) :
    w.store.get input.premise.memoryId = some commit.record ∧
      Committable o.principalTenant commit.expectedVersion.token commit.record ∧ commit.Exact ∧ commit.Of input := by
  unfold act at h
  cases hpremise : input.premise.record with
  | none =>
    rw [hpremise] at h
    cases h
  | some record =>
    rw [hpremise] at h
    obtain ⟨w₁, u1, hregistered, h1⟩ := Command.of_bind_ok h
    obtain ⟨-, rfl⟩ := of_rejectIf_ok hregistered
    obtain ⟨w₂, u2, hconditional, h2⟩ := Command.of_bind_ok h1
    obtain ⟨-, rfl⟩ := of_rejectIf_ok hconditional
    obtain ⟨w3, found, hfound, h3⟩ := Command.of_bind_ok h2
    cases found with
    | none => cases h3
    | some current =>
      obtain ⟨rfl, hcurrent, -⟩ := of_get_some hfound
      obtain ⟨w4, expectedVersion, hexpected, h4⟩ := Command.of_bind_ok h3
      obtain ⟨rfl, hversion⟩ := Prod.mk.inj hexpected
      split_ifs at h4 with hmatches
      · obtain ⟨w5, resource, hresource, h5⟩ := Command.of_bind_ok h4
        obtain ⟨rfl, hsource⟩ := Prod.mk.inj hresource
        obtain ⟨hsources, hnamed⟩ := of_actionResource_ok hsource
        obtain ⟨w6, answer, hanswer, h6⟩ := Command.of_bind_ok h5
        cases answer with
        | error reason => cases h6
        | ok shown =>
          obtain ⟨hstored, hcommittable⟩ := of_revalidateAndAct_ok hanswer
          obtain rfl := Option.some.inj (hcurrent.symm.trans hstored)
          obtain rfl := Except.ok.inj (Except.ok.inj (Prod.mk.inj h6).2)
          refine ⟨hcurrent, hcommittable, ⟨hmatches.2, hsources⟩, rfl, hnamed, ?_⟩
          intro version hgiven
          rw [Option.mem_def.mp hgiven] at hversion
          exact (Except.ok.inj hversion).symm
      · cases h4

theorem of_commitIfFresh_ok {conditionalAction : Bool} {prepared : PremisePreparedAction} {w w' : RuntimeState}
    {commit : ConditionalCommit} (h : commitIfFresh host o conditionalAction prepared w = (w', .ok (.ok commit))) :
    act host o conditionalAction prepared.input w = (w', .ok (.ok commit)) := by
  unfold commitIfFresh at h
  rcases hact : act host o conditionalAction prepared.input w with ⟨w₁, e | result | asked⟩
  · rw [hact] at h
    cases h
  · rw [hact] at h
    cases h
  · rw [hact] at h
    obtain ⟨rfl, hcommit⟩ := Prod.mk.inj h
    obtain rfl := Except.ok.inj (Except.ok.inj hcommit)
    rfl

end PremiseSession

/-- A connector is asked to commit only with a stored record that may be acted on at the version; a session asks only
when every item of the record has the version and the scheme, and the resource is one of the sources. -/
theorem guards_commits (host : RuntimeHost) (o : RuntimeOptions P K) :
    (∀ memoryId expectedVersion commits w w' record,
      PremiseRuntime.revalidateAndAct host o memoryId expectedVersion commits w = (w', .ok (.ok record)) →
        w.store.get memoryId = some record ∧ Committable o.principalTenant expectedVersion record) ∧
    (∀ conditionalAction input w w' commit,
      PremiseSession.act host o conditionalAction input w = (w', .ok (.ok commit)) →
        w.store.get input.premise.memoryId = some commit.record ∧
          Committable o.principalTenant commit.expectedVersion.token commit.record ∧ commit.Exact ∧ commit.Of input) ∧
    ∀ conditionalAction prepared w w' commit,
      PremiseSession.commitIfFresh host o conditionalAction prepared w = (w', .ok (.ok commit)) →
        w.store.get prepared.premise.memoryId = some commit.record ∧
          Committable o.principalTenant commit.expectedVersion.token commit.record ∧ commit.Exact ∧
          commit.resource = prepared.resource := by
  refine ⟨?_, ?_, ?_⟩
  · intro memoryId expectedVersion commits w w' record h
    exact PremiseRuntime.of_revalidateAndAct_ok h
  · intro conditionalAction input w w' commit h
    exact PremiseSession.of_act_ok h
  · intro conditionalAction prepared w w' commit h
    have hact := PremiseSession.of_commitIfFresh_ok h
    obtain ⟨hstored, hcommittable, hexact, hof⟩ := PremiseSession.of_act_ok hact
    exact ⟨hstored, hcommittable, hexact, hof.resource prepared.resource rfl⟩

def stillHost : RuntimeHost where
  now := fun _ => "1970-01-01T00:00:00.000Z"
  randomUUID := fun _ => "uuid"
  digestFor := fun _ => "sha256:0"
  digest_valid := fun _ => by decide +kernel
  sha256 := fun _ => "0"
  dateParse := fun _ => none
  journalAccepts := fun _ => true
  maxFrontierWork := 0

def pageRecord : RuntimeRecord where
  envelope := {
    tenantId := "default"
    memoryId := "page"
    evidence := [{
      evidenceId := "page#1"
      sourceUri := "file:page"
      observedAt := "1970-01-01T00:00:00Z"
      version := some { scheme := "etag", token := "1" }
      validator := some { id := "files", operation := "read" } }]
    confidence := { score := none, method := "manual" }
    conflicts := []
    temporal := { asOf := "1970-01-01T00:00:00Z" }
    validity := { status := .fresh, checkedAt := "1970-01-01T00:00:00Z", policy := .versioned }
    dependsOn := []
    signatures := [] }
  content := .string "text"

def pageRuntime : RuntimeState := { store := { records := (∅ : OrderedMap String RuntimeRecord).set "page" pageRecord } }

def pageWrite : PremisePreparedAction where
  premise := { memoryId := "page", record := some pageRecord }
  resource := "file:page"
  action := .string "write"

def pageCommit : ConditionalCommit where
  record := pageRecord
  resource := "file:page"
  expectedVersion := { scheme := "etag", token := "1" }
  action := .string "write"

theorem guards_commits_page :
    (pageRuntime.store.get "page" = some pageRecord ∧ Committable "default" "1" pageRecord) ∧
      (pageRuntime.store.get "page" = some pageCommit.record ∧ Committable "default" "1" pageCommit.record ∧
        pageCommit.Exact ∧ pageCommit.Of pageWrite.input) ∧
      (pageRuntime.store.get "page" = some pageCommit.record ∧ Committable "default" "1" pageCommit.record ∧
        pageCommit.Exact ∧ pageCommit.resource = "file:page") := by
  have h := guards_commits (P := Unit) (K := Unit) stillHost {}
  refine ⟨?_, ?_, ?_⟩
  · exact h.1 "page" "1" true pageRuntime pageRuntime pageRecord rfl
  · exact h.2.1 true pageWrite.input pageRuntime pageRuntime pageCommit rfl
  · exact h.2.2 true pageWrite pageRuntime pageRuntime pageCommit rfl

end Premise.RuntimeCore
