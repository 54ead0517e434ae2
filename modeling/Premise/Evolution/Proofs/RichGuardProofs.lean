import Premise.Control.Except
import Premise.Evolution.RichGuardSpec

/-!
# Proofs: two references of the rich guard

The states of the two references correspond as long as every step is one that they read alike. A step that they
do not read alike is answered differently.
-/

namespace Premise.Evolution

open Collections Control Js

theorem valid_of_validDatetime {p : DateParts} (h : Python.validDatetime p = true) : p.valid = true := by
  unfold Python.validDatetime at h
  have hdays : Python.daysInMonth p.year p.month ≤ 31 := by
    unfold Python.daysInMonth
    split_ifs
    all_goals omega
  unfold DateParts.valid
  rw [decide_eq_true_eq] at h ⊢
  obtain ⟨-, hmonth, hmonth', hday, hday', hhour, hminute, hsecond, hoffset⟩ := h
  exact ⟨hmonth, hmonth', hday, hday'.trans hdays, hminute, hsecond, Or.inl hhour, hoffset⟩

theorem dateParse_value (time : UtcInstant) : dateParse time.value = some time.instant := by
  unfold dateParse
  rw [time.read, Option.bind_some, if_pos (valid_of_validDatetime time.valid)]
  rfl

theorem parseTime_eq (time : UtcInstant) : Python.parseTime time = time.instant := by
  have h : Python.fromIsoFormat time.value = some time.instant := by
    unfold Python.fromIsoFormat
    rw [time.read, Option.bind_some, if_pos time.valid]
    rfl
  unfold Python.parseTime
  exact Option.get_of_eq_some _ h

theorem reached_iff {now limit : UtcInstant} : reached now limit = true ↔ ¬ now.instant < limit.instant := by
  unfold reached
  rw [dateParse_value, dateParse_value]
  simp

theorem python_reached : Python.reached = reached := by
  funext now limit
  rw [Bool.eq_iff_iff, reached_iff]
  unfold Python.reached
  rw [parseTime_eq, parseTime_eq]
  simp

theorem sourceChanged_iff {original : List SourceVersion} {memory : Option GuardMemory} :
    sourceChanged original memory = true ↔ ¬ ∀ m ∈ memory, ∀ o ∈ original, ∀ c ∈ m.sourceVersions,
      o.sourceUri = c.sourceUri → o.token = c.token := by
  unfold sourceChanged
  cases memory with
  | none | some => simp

namespace GuardInitial

variable {initial : GuardInitial} {s : GuardState GuardReceipt}

theorem incarnationMismatch_iff {lease : GuardLease} : initial.incarnationMismatch s lease = true ↔
    ∃ resource ∈ s.firstResource, initial.Recreated lease resource := by
  unfold incarnationMismatch Recreated
  cases s.firstResource with
  | none => simp
  | some resource => cases initial.resources.head? with
    | none | some => simp

end GuardInitial

/-- The receipt as Python keeps it; `given` tells whether the vector has a resource. -/
@[simps]
def GuardReceipt.python (given : Bool) (receipt : GuardReceipt) : Python.GuardReceipt where
  receiptId := receipt.receiptId
  intentId := receipt.intentId
  idempotencyKey := receipt.idempotencyKey
  actionDigest := receipt.actionDigest
  memoryId := receipt.memoryId
  incarnation := receipt.incarnation
  revision := receipt.revision
  sourceVersions := receipt.sourceVersions
  resourceId := if given then some receipt.resourceId else none
  resourceIncarnation := if given then some receipt.resourceIncarnation else none
  expiresAt := receipt.expiresAt
  lease := receipt.lease

namespace GuardState

variable {R : Type}

/-- The state as Python keeps it. -/
@[simps]
def python (s : GuardState GuardReceipt) : GuardState Python.GuardReceipt where
  memories := s.memories
  resources := s.resources
  receipts := s.receipts.mapValues (GuardReceipt.python s.firstResource.isSome)
  actions := s.actions
  now := s.now

/-- Resources are known by their ids, and a receipt is for the first of them. -/
structure Sound (s : GuardState GuardReceipt) : Prop where
  keyed : ∀ id resource, s.resources.get? id = some resource → resource.resourceId = id
  named : s.receipts.get? "" = none
  first : ∀ id receipt, s.receipts.get? id = some receipt → ∀ resource ∈ s.firstResource,
    receipt.resourceId = resource.resourceId

theorem get?_firstResource {s : GuardState R} {resource : GuardResource}
    (hkeyed : ∀ id resource, s.resources.get? id = some resource → resource.resourceId = id)
    (h : s.firstResource = some resource) : s.resources.get? resource.resourceId = some resource := by
  obtain ⟨id, hget⟩ := s.resources.mem_values.mp (List.mem_of_mem_head? h)
  rw [hkeyed id resource hget]
  exact hget

end GuardState

variable {s s' : GuardState GuardReceipt} {receipt : GuardReceipt} {input : CommitInput}

theorem python_resource (hs : s.Sound) {id : String} (hreceipt : s.receipts.get? id = some receipt) :
    ((receipt.python s.firstResource.isSome).resourceId.bind s.resources.get?) = s.firstResource := by
  unfold GuardReceipt.python
  cases hfirst : s.firstResource with
  | none => rfl
  | some resource =>
    rw [Option.isSome_some, if_pos rfl, Option.bind_some, hs.first id receipt hreceipt resource hfirst]
    exact GuardState.get?_firstResource hs.keyed hfirst

namespace GuardInitial

variable {initial : GuardInitial} {s : GuardState GuardReceipt}

/-- Python finds another incarnation than at the validation. -/
def Replaced (s : GuardState GuardReceipt) (receipt : GuardReceipt) : Prop :=
  ∃ resource ∈ s.firstResource, resource.incarnation ≠ receipt.resourceIncarnation

theorem python_incarnation (receipt : GuardReceipt) :
    ((if s.firstResource.any (fun resource =>
        some resource.incarnation ≠ (receipt.python s.firstResource.isSome).resourceIncarnation) = true
      then some (GuardOutput.rejected .incarnationMismatch) else none) = some (.rejected .incarnationMismatch) ∧ Replaced s receipt) ∨
    ((if s.firstResource.any (fun resource =>
        some resource.incarnation ≠ (receipt.python s.firstResource.isSome).resourceIncarnation) = true
      then some (GuardOutput.rejected .incarnationMismatch) else none) = none ∧ ¬ Replaced s receipt) := by
  unfold Replaced
  cases hfirst : s.firstResource with
  | none => simp
  | some resource =>
    by_cases hsame : resource.incarnation = receipt.resourceIncarnation
    · simp [hsame]
    · simp [hsame]

theorem rejections (initial : GuardInitial) (hs : s.Sound) {id : String}
    (hreceipt : s.receipts.get? id = some receipt) :
    (∃ output, ¬ initial.Current s receipt ∧ (initial.Offered s receipt → receipt.lease ≠ none) ∧
      initial.rejection s receipt = .ok (some output) ∧
      Python.rejection initial s.python (receipt.python s.firstResource.isSome) = some output) ∨
    (receipt.lease = none ∧ initial.Offered s receipt ∧ ∃ e, initial.rejection s receipt = .error e) ∨
    ∃ lease, receipt.lease = some lease ∧ initial.Current s receipt ∧
      (initial.rejection s receipt = .ok (some (.rejected .incarnationMismatch)) ∧ initial.incarnationMismatch s lease = true ∨
        initial.rejection s receipt = .ok none ∧ initial.incarnationMismatch s lease = false) ∧
      (Python.rejection initial s.python (receipt.python s.firstResource.isSome)
          = some (.rejected .incarnationMismatch) ∧ Replaced s receipt ∨
        Python.rejection initial s.python (receipt.python s.firstResource.isSome) = none ∧ ¬ Replaced s receipt) := by
  have hreached : ∀ limit : Option UtcInstant, limit.any (reached s.now) = false ↔
      ∀ t ∈ limit, s.now.instant < t.instant := by
    intro limit
    cases limit with
    | none => simp
    | some t => simp [← Bool.not_eq_true, reached_iff]
  unfold rejection Python.rejection
  rw [python_reached, show Python.changed = sourceChanged from rfl]
  simp only [GuardReceipt.python_expiresAt, GuardReceipt.python_lease, GuardReceipt.python_sourceVersions,
    GuardReceipt.python_memoryId, GuardReceipt.python_revision, GuardState.python_memories, GuardState.python_resources,
    GuardState.python_now, python_resource hs hreceipt]
  by_cases hcas : "CAS" ∈ initial.capabilities
  · rw [if_neg (not_not.mpr hcas), if_neg (not_not.mpr hcas)]
    cases hexpired : receipt.expiresAt.any (reached s.now) with
    | true =>
      rw [if_pos rfl, if_pos rfl]
      have hoffered : ¬ initial.Offered s receipt := fun h => by
        rw [(hreached _).mpr h.unexpired] at hexpired
        cases hexpired
      exact .inl ⟨_, fun h => hoffered h.toOffered, fun h => absurd h hoffered, rfl, rfl⟩
    | false =>
      have hoffered : initial.Offered s receipt := ⟨hcas, (hreached _).mp hexpired⟩
      rw [if_neg Bool.false_ne_true, if_neg Bool.false_ne_true]
      cases hlease : receipt.lease with
      | none => exact .inr (Or.inl ⟨rfl, hoffered, _, rfl⟩)
      | some lease =>
        dsimp only
        rw [Option.bind_some]
        have hkept : initial.Offered s receipt → some lease ≠ none := fun _ => by simp
        cases hended : lease.expiresAt.any (reached s.now) with
        | true =>
          rw [if_pos rfl, if_pos rfl]
          refine .inl ⟨_, fun h => ?_, hkept, rfl, rfl⟩
          rw [(hreached _).mpr (h.leased lease hlease)] at hended
          cases hended
        | false =>
          rw [if_neg Bool.false_ne_true, if_neg Bool.false_ne_true]
          cases hchanged : sourceChanged receipt.sourceVersions (s.memories.get? receipt.memoryId) with
          | true =>
            rw [if_pos rfl, if_pos rfl]
            exact .inl ⟨_, fun h => sourceChanged_iff.mp hchanged h.sources, hkept, rfl, rfl⟩
          | false =>
            rw [if_neg Bool.false_ne_true, if_neg Bool.false_ne_true]
            cases hrevised : (s.memories.get? receipt.memoryId).any (fun memory => memory.revision ≠ receipt.revision) with
            | true =>
              rw [if_pos rfl, if_pos rfl]
              refine .inl ⟨_, fun h => ?_, hkept, rfl, rfl⟩
              obtain ⟨memory, hmemory, hrevision⟩ := (Option.any_eq_true _ _).mp hrevised
              exact of_decide_eq_true hrevision (h.revision memory hmemory)
            | false =>
              rw [if_neg Bool.false_ne_true, if_neg Bool.false_ne_true]
              refine .inr (Or.inr ⟨lease, rfl, ?_, ?_, ?_⟩)
              · exact {
                  toOffered := hoffered
                  leased := fun l hl => by
                    obtain rfl := Option.some.inj (hlease.symm.trans hl)
                    exact (hreached _).mp hended
                  sources := not_not.mp (fun h => by
                    rw [sourceChanged_iff.mpr h] at hchanged
                    cases hchanged)
                  revision := fun memory hmemory => by
                    rw [show s.memories.get? receipt.memoryId = some memory from hmemory] at hrevised
                    exact not_not.mp (of_decide_eq_false hrevised) }
              · cases initial.incarnationMismatch s lease with
                | true => exact .inl ⟨rfl, rfl⟩
                | false => exact .inr ⟨rfl, rfl⟩
              · exact python_incarnation receipt
  · rw [if_pos hcas, if_pos hcas]
    exact .inl ⟨_, fun h => hcas h.cas, fun h => absurd h.cas hcas, rfl, rfl⟩

/-! ## The steps -/

def Alike (initial : GuardInitial) (s : GuardState GuardReceipt) (operation : GuardOperation) : Prop :=
  ∃ s', initial.step s operation = .ok (s', (Python.step initial s.python operation).2)
    ∧ s'.python = (Python.step initial s.python operation).1

theorem python_receipt (input : ValidateInput) (memory : GuardMemory) :
    (initial.receipt s input memory).python s.firstResource.isSome = Python.receipt initial s.python input memory := by
  unfold receipt GuardReceipt.python Python.receipt
  rw [show s.python.firstResource = s.firstResource from rfl]
  cases s.firstResource with
  | none | some => rfl

theorem validate_memory (s : GuardState GuardReceipt) (input : ValidateInput) (h : initial.incomplete input = .ok false) :
    initial.validate s input = .ok (match s.memories.get? (text input.memoryIds.head?) with
      | none => (s, .refused .memoryNotFresh)
      | some memory =>
        if memory.status ≠ "FRESH" then (s, .refused .memoryNotFresh)
        else ({ s with receipts := s.receipts.set (receiptIdOf input.intentId) (initial.receipt s input memory) },
          .use (receiptIdOf input.intentId))) := by
  unfold validate
  rw [h, ok_bind, if_neg Bool.false_ne_true]
  cases s.memories.get? (text input.memoryIds.head?) with
  | none => rfl
  | some memory =>
    dsimp only
    split_ifs
    · rfl
    · rfl

theorem incomplete_cases (initial : GuardInitial) (input : ValidateInput) :
    (text input.suppliedSlice ≠ "" ∧ initial.suppliedSlice = none ∧ ∃ e, initial.incomplete input = .error e) ∨
    ((text input.suppliedSlice ≠ "" → initial.suppliedSlice ≠ none) ∧
      initial.incomplete input = .ok (Python.incomplete initial input) ∧
      (Python.incomplete initial input = false ↔
        text input.suppliedSlice = "" ∨ ∃ slice ∈ initial.suppliedSlice, slice.complete = true)) := by
  unfold incomplete Python.incomplete text
  cases input.suppliedSlice with
  | none => simp
  | some supplied =>
    by_cases hsupplied : supplied = ""
    · simp [hsupplied]
    · cases initial.suppliedSlice with
      | none => simp [hsupplied]
      | some slice => cases hcomplete : slice.complete <;> simp [hsupplied, hcomplete]

theorem alike_validate {input : ValidateInput} (h : initial.AgreesAt s (.validate input)) :
    Alike initial s (.validate input) := by
  obtain ⟨hslice, hnamed⟩ := h
  rcases incomplete_cases initial input with ⟨hsupplied, hnone, -⟩ | ⟨-, hincomplete, hcomplete⟩
  · exact absurd hnone (hslice hsupplied)
  · show ∃ s', initial.validate s input = .ok (s', (Python.validate initial s.python input).2)
      ∧ s'.python = (Python.validate initial s.python input).1
    cases hpython : Python.incomplete initial input with
    | true =>
      rw [hpython] at hincomplete
      unfold validate Python.validate
      rw [hincomplete, hpython]
      exact ⟨s, rfl, rfl⟩
    | false =>
      rw [hpython] at hincomplete
      rw [validate_memory s input hincomplete]
      unfold Python.validate
      rw [hpython, if_neg Bool.false_ne_true]
      cases hids : input.memoryIds.head? with
      | none =>
        have hempty : ∀ memory, s.memories.get? "" = some memory → memory.status ≠ "FRESH" :=
          hnamed (List.head?_eq_none_iff.mp hids) (hcomplete.mp hpython)
        refine ⟨s, ?_, rfl⟩
        show _ = Except.ok (s, GuardOutput.refused .memoryNotFresh)
        rw [show text none = "" from rfl]
        cases hmemory : s.memories.get? "" with
        | none => rfl
        | some memory =>
          dsimp only
          rw [if_pos (hempty memory hmemory)]
      | some memoryId =>
        rw [show text (some memoryId) = memoryId from rfl, Option.bind_some,
          show s.python.memories.get? memoryId = s.memories.get? memoryId from rfl]
        cases s.memories.get? memoryId with
        | none => exact ⟨s, rfl, rfl⟩
        | some memory =>
          dsimp only
          split_ifs with hfresh
          · exact ⟨s, rfl, rfl⟩
          · refine ⟨_, rfl, ?_⟩
            have hreceipts : (s.receipts.set (receiptIdOf input.intentId) (initial.receipt s input memory)).mapValues
                (GuardReceipt.python s.firstResource.isSome)
                = s.python.receipts.set (receiptIdOf input.intentId) (Python.receipt initial s.python input memory) := by
              rw [OrderedMap.mapValues_set, python_receipt]
              rfl
            exact congrArg (fun receipts => { s.python with receipts }) hreceipts

theorem agreesAt_validate {input : ValidateInput}
    (h : initial.step s (.validate input) = .ok (s', (Python.step initial s.python (.validate input)).2)) :
    initial.AgreesAt s (.validate input) := by
  replace h : initial.validate s input = .ok (s', (Python.validate initial s.python input).2) := h
  rcases incomplete_cases initial input with ⟨-, -, e, herror⟩ | ⟨hslice, hincomplete, hcomplete⟩
  · unfold validate at h
    rw [herror] at h
    cases h
  · refine ⟨hslice, fun hids hgiven memory hmemory hfresh => ?_⟩
    have hpython : Python.incomplete initial input = false := hcomplete.mpr hgiven
    rw [hpython] at hincomplete
    rw [validate_memory s input hincomplete, hids] at h
    unfold Python.validate at h
    rw [hpython, if_neg Bool.false_ne_true, hids] at h
    have houtput := congrArg Prod.snd (Except.ok.inj h)
    rw [show text ([] : List String).head? = "" from rfl, show s.memories.get? "" = some memory from hmemory] at houtput
    dsimp only at houtput
    rw [if_neg (not_not.mpr hfresh)] at houtput
    cases houtput

theorem python_lookup (hs : s.Sound) (id : Option String) : id.bind s.python.receipts.get?
    = (s.receipts.get? (text id)).map (GuardReceipt.python s.firstResource.isSome) := by
  cases id with
  | none =>
    rw [Option.bind_none, show text none = "" from rfl, hs.named]
    rfl
  | some id => exact OrderedMap.get?_mapValues _ _ _

def Conflicts (s : GuardState GuardReceipt) (input : CommitInput) : Prop :=
  ∃ previous ∈ s.actions.get? (text input.idempotencyKey), previous ≠ text input.actionDigest

theorem conflicts_iff : Conflicts s input ↔
    (s.actions.get? (text input.idempotencyKey)).any (fun previous => previous ≠ text input.actionDigest) = true := by
  rw [Option.any_eq_true]
  simp [Conflicts]

theorem python_conflicts_iff :
    (∃ key ∈ input.idempotencyKey, ∃ previous ∈ s.actions.get? key, some previous ≠ input.actionDigest) ↔
      (input.idempotencyKey.bind s.python.actions.get?).any (fun previous => some previous ≠ input.actionDigest) = true := by
  rw [Option.any_eq_true]
  simp only [Option.bind_eq_some_iff, decide_eq_true_eq, GuardState.python_actions, Option.mem_def]
  constructor
  · rintro ⟨key, hkey, previous, hprevious, hne⟩
    exact ⟨previous, ⟨key, hkey, hprevious⟩, hne⟩
  · rintro ⟨previous, ⟨key, hkey, hprevious⟩, hne⟩
    exact ⟨key, hkey, previous, hprevious, hne⟩

def settle {R : Type} (s : GuardState R) (key digest : String) : GuardState R × GuardOutput :=
  match s.actions.get? key with
  | some previous => if previous = digest then (s, .replay) else (s, .rejected .idempotencyConflict)
  | none => ({ s with actions := s.actions.set key digest }, .applied)

theorem commit_missing (h : s.receipts.get? (text input.receipt) = none) :
    initial.commit s input = .ok (s, .rejected (if (s.actions.get? (text input.idempotencyKey)).any
      (fun previous => previous ≠ text input.actionDigest) = true then .idempotencyConflict else .receiptMissing)) := by
  unfold commit
  rw [h]
  split_ifs
  · rfl
  · rfl

theorem python_commit_missing (hs : s.Sound) (h : s.receipts.get? (text input.receipt) = none) :
    Python.commit initial s.python input = (s.python, .rejected (if (input.idempotencyKey.bind s.python.actions.get?).any
      (fun previous => some previous ≠ input.actionDigest) = true then .idempotencyConflict else .receiptMissing)) := by
  unfold Python.commit
  rw [python_lookup hs, h]
  dsimp only [Option.map_none]
  split_ifs
  · rfl
  · rfl

theorem commit_receipt (h : s.receipts.get? (text input.receipt) = some receipt) :
    initial.commit s input = (initial.rejection s receipt).map (fun rejection => match rejection with
      | some output => (s, output)
      | none => settle s receipt.idempotencyKey receipt.actionDigest) := by
  unfold commit settle
  rw [h]
  dsimp only
  cases initial.rejection s receipt with
  | error e => rfl
  | ok rejection => cases rejection with
    | some output => rfl
    | none =>
      rw [ok_bind]
      dsimp only [Except.map]
      cases s.actions.get? receipt.idempotencyKey with
      | none => rfl
      | some previous =>
        dsimp only
        split_ifs
        · rfl
        · rfl

theorem python_commit_receipt (hs : s.Sound) (h : s.receipts.get? (text input.receipt) = some receipt) :
    Python.commit initial s.python input =
      (match Python.rejection initial s.python (receipt.python s.firstResource.isSome) with
      | some output => (s.python, output)
      | none => settle s.python receipt.idempotencyKey receipt.actionDigest) := by
  unfold Python.commit settle
  rw [python_lookup hs, h]
  rfl

theorem commit_cases {output : GuardOutput} (h : initial.commit s input = .ok (s', output)) :
    (s.receipts.get? (text input.receipt) = none ∧ s' = s ∧ ∃ reason, output = .rejected reason) ∨
    ∃ receipt, s.receipts.get? (text input.receipt) = some receipt ∧
      (initial.rejection s receipt = .ok (some output) ∧ s' = s ∨
        initial.rejection s receipt = .ok none ∧ (s', output) = settle s receipt.idempotencyKey receipt.actionDigest) := by
  cases hlookup : s.receipts.get? (text input.receipt) with
  | none =>
    rw [commit_missing hlookup] at h
    cases h
    exact .inl ⟨rfl, rfl, _, rfl⟩
  | some receipt =>
    rw [commit_receipt hlookup] at h
    refine .inr ⟨receipt, rfl, ?_⟩
    cases hrejection : initial.rejection s receipt with
    | error e =>
      rw [hrejection] at h
      cases h
    | ok rejection =>
      rw [hrejection] at h
      cases rejection with
      | some rejected =>
        cases h
        exact .inl ⟨rfl, rfl⟩
      | none => exact .inr ⟨rfl, (Except.ok.inj h).symm⟩

theorem settle_state (s : GuardState GuardReceipt) (key digest : String) :
    ∃ actions, (settle s key digest).1 = { s with actions } := by
  unfold settle
  cases s.actions.get? key with
  | none => exact ⟨_, rfl⟩
  | some previous =>
    dsimp only
    split_ifs
    · exact ⟨s.actions, rfl⟩
    · exact ⟨s.actions, rfl⟩

theorem settle_python (s : GuardState GuardReceipt) (key digest : String) :
    settle s.python key digest = ((settle s key digest).1.python, (settle s key digest).2) := by
  unfold settle
  rw [GuardState.python_actions]
  cases s.actions.get? key with
  | none => rfl
  | some previous =>
    dsimp only
    split_ifs
    · rfl
    · rfl

theorem settle_ne (s : GuardState GuardReceipt) (key digest : String) :
    (settle s key digest).2 ≠ .rejected .incarnationMismatch := by
  unfold settle
  cases s.actions.get? key with
  | none => simp
  | some previous =>
    dsimp only
    split_ifs
    · simp
    · simp

theorem mismatch_iff {lease : GuardLease} (hlease : receipt.lease = some lease) :
    (∀ l ∈ receipt.lease, ∀ resource ∈ s.firstResource,
        (initial.Recreated l resource ↔ resource.incarnation ≠ receipt.resourceIncarnation)) ↔
      (initial.incarnationMismatch s lease = true ↔ Replaced s receipt) := by
  rw [incarnationMismatch_iff, hlease]
  unfold Replaced
  cases s.firstResource with
  | none | some => simp

theorem alike_commit (hs : s.Sound) (h : initial.AgreesAt s (.commit input)) : Alike initial s (.commit input) := by
  show ∃ s', initial.commit s input = .ok (s', (Python.commit initial s.python input).2)
    ∧ s'.python = (Python.commit initial s.python input).1
  unfold AgreesAt at h
  dsimp only at h
  cases hlookup : s.receipts.get? (text input.receipt) with
  | none =>
    rw [hlookup] at h
    rw [commit_missing hlookup, python_commit_missing hs hlookup]
    refine ⟨s, ?_, rfl⟩
    have hsame : (s.actions.get? (text input.idempotencyKey)).any (fun previous => previous ≠ text input.actionDigest)
        = (input.idempotencyKey.bind s.python.actions.get?).any (fun previous => some previous ≠ input.actionDigest) := by
      rw [Bool.eq_iff_iff, ← conflicts_iff, ← python_conflicts_iff]
      exact h
    rw [hsame]
  | some receipt =>
    rw [hlookup] at h
    obtain ⟨hlease, hincarnation⟩ := h
    rw [commit_receipt hlookup, python_commit_receipt hs hlookup]
    rcases rejections initial hs hlookup with ⟨output, -, -, hts, hpy⟩ | ⟨hnone, hoffered, -⟩ |
      ⟨lease, hsome, hcurrent, hts, hpy⟩
    · rw [hts, hpy]
      exact ⟨s, rfl, rfl⟩
    · exact absurd hnone (hlease hoffered)
    · have hiff := (mismatch_iff hsome).mp (hincarnation hcurrent)
      rcases hts with ⟨hts, hmismatch⟩ | ⟨hts, hmismatch⟩
      · rcases hpy with ⟨hpy, -⟩ | ⟨-, hkept⟩
        · rw [hts, hpy]
          exact ⟨s, rfl, rfl⟩
        · exact absurd (hiff.mp hmismatch) hkept
      · rcases hpy with ⟨-, hreplaced⟩ | ⟨hpy, -⟩
        · rw [hiff.mpr hreplaced] at hmismatch
          cases hmismatch
        · rw [hts, hpy]
          dsimp only [Except.map]
          rw [settle_python]
          exact ⟨_, rfl, rfl⟩

theorem agreesAt_commit (hs : s.Sound)
    (h : initial.step s (.commit input) = .ok (s', (Python.step initial s.python (.commit input)).2)) :
    initial.AgreesAt s (.commit input) := by
  replace h : initial.commit s input = .ok (s', (Python.commit initial s.python input).2) := h
  unfold AgreesAt
  dsimp only
  cases hlookup : s.receipts.get? (text input.receipt) with
  | none =>
    rw [commit_missing hlookup, python_commit_missing hs hlookup] at h
    have hreason := GuardOutput.rejected.inj (congrArg Prod.snd (Except.ok.inj h))
    show Conflicts s input ↔ _
    rw [conflicts_iff, python_conflicts_iff]
    split_ifs at hreason with hts hpy hpy
    · exact iff_of_true hts hpy
    · exact iff_of_false hts hpy
  | some receipt =>
    rw [commit_receipt hlookup, python_commit_receipt hs hlookup] at h
    rcases rejections initial hs hlookup with ⟨output, hold, hlease, -⟩ | ⟨-, -, e, herror⟩ |
      ⟨lease, hsome, hcurrent, hts, hpy⟩
    · exact ⟨hlease, fun hcurrent => absurd hcurrent hold⟩
    · rw [herror] at h
      cases h
    · refine ⟨fun _ => by rw [hsome]; simp, fun _ => (mismatch_iff hsome).mpr ?_⟩
      rcases hts with ⟨hts, hmismatch⟩ | ⟨hts, hmismatch⟩
      · rcases hpy with ⟨-, hreplaced⟩ | ⟨hpy, -⟩
        · exact iff_of_true hmismatch hreplaced
        · rw [hts, hpy] at h
          have houtput := congrArg Prod.snd (Except.ok.inj h)
          rw [settle_python] at houtput
          exact absurd houtput.symm (settle_ne s _ _)
      · rcases hpy with ⟨hpy, -⟩ | ⟨-, hkept⟩
        · rw [hts, hpy] at h
          exact absurd (congrArg Prod.snd (Except.ok.inj h)) (settle_ne s _ _)
        · rw [hmismatch]
          exact iff_of_false Bool.false_ne_true hkept

end GuardInitial

/-! ## Sound states -/

theorem GuardState.firstResource_deleteRecreate {R : Type} {s : GuardState R}
    (hkeyed : ∀ id resource, s.resources.get? id = some resource → resource.resourceId = id)
    (id incarnation revision : String) : (s.deleteRecreate id incarnation revision).firstResource
      = s.firstResource.map (fun r => if r.resourceId = id then { r with incarnation, revision } else r) := by
  have hentry : ∀ p ∈ s.resources.entries, s.resources.get? p.1 = some p.2 :=
    fun p hp => s.resources.get?_eq_some_iff.mpr hp
  unfold deleteRecreate firstResource OrderedMap.values
  cases hget : s.resources.get? id with
  | none =>
    cases hentries : s.resources.entries with
    | nil => simp
    | cons p rest =>
      have hp := hentry p (by rw [hentries]; exact List.mem_cons_self)
      have hne : p.2.resourceId ≠ id := by
        rintro rfl
        rw [hkeyed p.1 p.2 hp, hp] at hget
        cases hget
      simp [hne]
  | some resource =>
    rw [OrderedMap.entries_set_of_mem _ (s.resources.mem_keys_of_get? hget)]
    cases hentries : s.resources.entries with
    | nil => rfl
    | cons p rest =>
      have hp := hentry p (by rw [hentries]; exact List.mem_cons_self)
      have hid := hkeyed p.1 p.2 hp
      by_cases hk : p.1 = id
      · have hsame : resource = p.2 := by
          rw [hk, hget] at hp
          exact Option.some.inj hp
        simp [hk, hid, hsame]
      · simp [hk, hid]

theorem receiptIdOf_ne (intentId : String) : receiptIdOf intentId ≠ "" := by
  intro h
  have hlength := congrArg String.length h
  unfold receiptIdOf at hlength
  rw [String.length_append] at hlength
  have hlead : "receipt:".length = 8 := by decide
  have hempty : "".length = 0 := by decide
  omega

namespace GuardState.Sound

variable {initial : GuardInitial} {s s' : GuardState GuardReceipt}

theorem init (initial : GuardInitial) : (initial.state GuardReceipt).Sound where
  keyed := by
    intro id resource h
    have hmem := OrderedMap.mem_of_mem_ofList ((OrderedMap.get?_eq_some_iff _).mp h)
    obtain ⟨r, -, hr⟩ := List.mem_map.mp hmem
    cases hr
    rfl
  named := OrderedMap.get?_empty _
  first := by
    intro id receipt h
    cases h

theorem deleteRecreate (hs : s.Sound) (id incarnation revision : String) :
    (s.deleteRecreate id incarnation revision).Sound := by
  have hreceipts : (s.deleteRecreate id incarnation revision).receipts = s.receipts := by
    unfold GuardState.deleteRecreate
    cases s.resources.get? id with
    | none | some => rfl
  refine ⟨?_, by rw [hreceipts]; exact hs.named, ?_⟩
  · unfold GuardState.deleteRecreate
    cases hget : s.resources.get? id with
    | none => exact hs.keyed
    | some resource =>
      intro id' resource' h
      rw [OrderedMap.get?_set] at h
      split_ifs at h with hid
      · cases h
        rw [hid]
        exact hs.keyed id resource hget
      · exact hs.keyed id' resource' h
  · intro id' receipt hget resource hfirst
    rw [hreceipts] at hget
    rw [firstResource_deleteRecreate hs.keyed] at hfirst
    obtain ⟨r, hr, rfl⟩ := Option.map_eq_some_iff.mp hfirst
    rw [hs.first id' receipt hget r hr]
    split_ifs
    · rfl
    · rfl

theorem validate (hs : s.Sound) {input : ValidateInput} {output : GuardOutput}
    (h : initial.validate s input = .ok (s', output)) : s'.Sound := by
  unfold GuardInitial.validate at h
  obtain ⟨incomplete, -, h⟩ := of_bind_ok h
  split at h
  · obtain ⟨rfl, -⟩ := Prod.mk.inj (Except.ok.inj h)
    exact hs
  · split at h
    · obtain ⟨rfl, -⟩ := Prod.mk.inj (Except.ok.inj h)
      exact hs
    · split at h
      · obtain ⟨rfl, -⟩ := Prod.mk.inj (Except.ok.inj h)
        exact hs
      · obtain ⟨rfl, -⟩ := Prod.mk.inj (Except.ok.inj h)
        refine ⟨hs.keyed, ?_, ?_⟩
        · dsimp only
          rw [OrderedMap.get?_set_of_ne _ _ (receiptIdOf_ne _).symm]
          exact hs.named
        · intro id receipt hget resource hfirst
          rw [OrderedMap.get?_set] at hget
          split_ifs at hget
          · cases hget
            unfold GuardInitial.receipt
            rw [show s.firstResource = some resource from hfirst]
            rfl
          · exact hs.first id receipt hget resource hfirst

theorem commit (hs : s.Sound) {input : CommitInput} {output : GuardOutput}
    (h : initial.commit s input = .ok (s', output)) : s'.Sound := by
  rcases GuardInitial.commit_cases h with ⟨-, rfl, -⟩ | ⟨receipt, -, ⟨-, rfl⟩ | ⟨-, hsettle⟩⟩
  · exact hs
  · exact hs
  · obtain ⟨actions, hactions⟩ := GuardInitial.settle_state s receipt.idempotencyKey receipt.actionDigest
    obtain rfl : s' = { s with actions } := (congrArg Prod.fst hsettle).trans hactions
    exact ⟨hs.keyed, hs.named, hs.first⟩

theorem step (hs : s.Sound) {operation : GuardOperation} {output : GuardOutput}
    (h : initial.step s operation = .ok (s', output)) : s'.Sound := by
  cases operation with
  | validate input => exact hs.validate h
  | mutateSource sourceUri token =>
    obtain ⟨rfl, -⟩ := Prod.mk.inj (Except.ok.inj h)
    exact ⟨hs.keyed, hs.named, hs.first⟩
  | mutateMemory memoryId revision status =>
    obtain ⟨rfl, -⟩ := Prod.mk.inj (Except.ok.inj h)
    unfold GuardState.mutateMemory
    cases s.memories.get? memoryId with
    | none => exact hs
    | some memory => exact ⟨hs.keyed, hs.named, hs.first⟩
  | deleteRecreate resourceId incarnation revision =>
    obtain ⟨rfl, -⟩ := Prod.mk.inj (Except.ok.inj h)
    exact hs.deleteRecreate _ _ _
  | advanceTime now =>
    obtain ⟨rfl, -⟩ := Prod.mk.inj (Except.ok.inj h)
    exact ⟨hs.keyed, hs.named, hs.first⟩
  | commit input => exact hs.commit h

end GuardState.Sound

namespace GuardInitial

variable {initial : GuardInitial} {s : GuardState GuardReceipt}

theorem agreesAt_iff (hs : s.Sound) (operation : GuardOperation) :
    initial.AgreesAt s operation ↔ Alike initial s operation := by
  cases operation with
  | validate input => exact ⟨alike_validate, fun ⟨_, h, _⟩ => agreesAt_validate h⟩
  | mutateSource sourceUri token => exact iff_of_true trivial ⟨_, rfl, rfl⟩
  | mutateMemory memoryId revision status =>
    refine iff_of_true trivial ⟨_, rfl, ?_⟩
    show (s.mutateMemory memoryId revision status).python = s.python.mutateMemory memoryId revision status
    unfold GuardState.mutateMemory
    rw [GuardState.python_memories]
    cases s.memories.get? memoryId with
    | none | some => rfl
  | deleteRecreate resourceId incarnation revision =>
    refine iff_of_true trivial ⟨_, rfl, ?_⟩
    show (s.deleteRecreate resourceId incarnation revision).python = s.python.deleteRecreate resourceId incarnation revision
    have hgiven : (s.deleteRecreate resourceId incarnation revision).firstResource.isSome = s.firstResource.isSome := by
      rw [GuardState.firstResource_deleteRecreate hs.keyed, Option.isSome_map]
    unfold GuardState.python
    rw [hgiven]
    unfold GuardState.deleteRecreate
    cases s.resources.get? resourceId with
    | none | some => rfl
  | advanceTime now => exact iff_of_true trivial ⟨_, rfl, rfl⟩
  | commit input => exact ⟨alike_commit hs, fun ⟨_, h, _⟩ => agreesAt_commit hs h⟩

theorem alike_of_output (hs : s.Sound) {operation : GuardOperation}
    (h : initial.step s operation = .ok (s', (Python.step initial s.python operation).2)) :
    Alike initial s operation := by
  cases operation with
  | validate input => exact alike_validate (agreesAt_validate h)
  | commit input => exact alike_commit hs (agreesAt_commit hs h)
  | mutateSource | mutateMemory | deleteRecreate | advanceTime => exact (agreesAt_iff hs _).mp trivial

theorem run_iff (hs : s.Sound) (steps : List GuardStep) :
    initial.run s steps = .ok (Python.run initial s.python steps) ↔ initial.AgreesAlong s steps := by
  induction steps generalizing s with
  | nil => exact iff_of_true rfl trivial
  | cons next rest ih =>
    unfold run Python.run AgreesAlong
    constructor
    · intro h
      obtain ⟨⟨s', output⟩, hstep, h⟩ := of_bind_ok h
      obtain ⟨outputs, hrun, h⟩ := of_bind_ok h
      obtain ⟨hhead, rfl⟩ := List.cons.inj (Except.ok.inj h)
      obtain rfl := (Prod.mk.inj hhead).2
      have halike := alike_of_output hs hstep
      refine ⟨(agreesAt_iff hs _).mpr halike, fun s'' output hstep' => ?_⟩
      obtain ⟨t, ht, hpython⟩ := halike
      obtain ⟨rfl, -⟩ := Prod.mk.inj (Except.ok.inj (ht.symm.trans hstep))
      obtain ⟨rfl, -⟩ := Prod.mk.inj (Except.ok.inj (ht.symm.trans hstep'))
      rw [← ih (hs.step hstep), hpython]
      exact hrun
    · rintro ⟨hagrees, hrest⟩
      obtain ⟨s', hstep, hpython⟩ := (agreesAt_iff hs _).mp hagrees
      have hrun := (ih (hs.step hstep)).mpr (hrest s' _ hstep)
      rw [hstep, ok_bind]
      dsimp only
      rw [hrun, ok_bind, hpython]
      rfl

end GuardInitial

def noon : UtcInstant where
  value := "2026-08-12T12:00:00Z"
  parts := ⟨2026, 8, 12, 12, 0, 0, 0, (1, 0, 0)⟩
  read := by decide +kernel
  utc := rfl
  valid := by decide

/-- One resource, one fresh memory, and a lease on the resource. -/
def oneResource : GuardInitial where
  now := noon
  capabilities := ["CAS"]
  memories := [⟨"m", "m#1", "r1", "FRESH", []⟩]
  resources := [⟨"order", "order#1", "r7"⟩]
  lease := some ⟨some "order", none⟩
  receiptExpiresAt := none
  suppliedSlice := none

def validateOrder : GuardStep :=
  ⟨"validate", .validate ⟨"intent:1", "k", ["m"], "d", none⟩⟩

def recreateOrder : GuardStep := ⟨"recreate", .deleteRecreate "order" "order#2" "r1"⟩

def commitOrder : GuardStep := ⟨"commit", .commit ⟨some "receipt:1", none, none⟩⟩

end Premise.Evolution
