import Premise.Control.Except
import Premise.Security.Audit
import Premise.Security.Proofs.CanonicalProofs

/-!
# Proofs: the audit chain

Entries with one hash have one canonical text, where the digests of the texts at hand differ. They
therefore carry the same hash of the entry before them, so that chains with one last hash agree from
their ends to their beginnings.
-/

namespace Premise.Security

open Collections Control Js

variable {sha : Sha256}

variable {v w : Payload} {key : String}

namespace Payload

/-! ## Properties -/

theorem fieldDocuments_eq (properties : List (String × Payload)) :
    fieldDocuments properties = properties.map (fun p => (p.1, p.2.document)) := by
  induction properties with
  | nil => rfl
  | cons p properties ih => rw [fieldDocuments, ih, List.map_cons]

theorem nodup_ownProperties (hv : v.WellFormed) : ((v.ownProperties.getD []).map Prod.fst).Nodup := by
  cases v with
  | error | object => exact hv.1
  | bytes content =>
    have hkeys : (((Payload.bytes content).ownProperties.getD []).map Prod.fst) =
        content.mapIdx (fun i _ => toString i) := by
      apply List.ext_getElem?
      intro i
      simp [ownProperties, Function.comp_def]
    rw [hkeys, List.nodup_iff_getElem?_ne_getElem?]
    intro i j hij hj heq
    rw [List.length_mapIdx] at hj
    rw [List.getElem?_mapIdx, List.getElem?_mapIdx, List.getElem?_eq_getElem (hij.trans hj),
      List.getElem?_eq_getElem hj] at heq
    exact hij.ne (Nat.repr_injective (Option.some.inj heq))
  | _ => exact List.nodup_nil

theorem mem_of_get (h : v.get key = some w) : (key, w) ∈ v.ownProperties.getD [] := by
  obtain ⟨⟨k, w'⟩, hfind, rfl⟩ := Option.map_eq_some_iff.mp h
  have hk : k = key := by simpa using List.find?_some hfind
  exact hk ▸ List.mem_of_find?_eq_some hfind

theorem get_eq_some_iff (hv : v.WellFormed) : v.get key = some w ↔ (key, w) ∈ v.ownProperties.getD [] := by
  refine ⟨mem_of_get, fun hmem => ?_⟩
  unfold get
  rw [OrderedMap.find?_of_mem (nodup_ownProperties hv) hmem, Option.map_some]

theorem text_eq_some {s : String} (h : v.text key = some s) : v.get key = some (.string s) := by
  unfold text at h
  split at h
  · rename_i hget
    rw [hget, Option.some.inj h]
  · cases h

theorem numeral_eq_some {q : ℚ} (h : v.numeral key = some q) :
    ∃ value, v.get key = some (.number value) ∧ value.val = q := by
  unfold numeral at h
  split at h
  · rename_i value hget
    exact ⟨value, hget, Option.some.inj h⟩
  · cases h

theorem wellFormedProperties_iff {properties : List (String × Payload)} :
    WellFormedProperties properties ↔ ∀ p ∈ properties, p.2.WellFormed := by
  induction properties with
  | nil => simp [WellFormedProperties]
  | cons p properties ih => rw [WellFormedProperties, ih, List.forall_mem_cons]

theorem wellFormed_ownProperties (hv : v.WellFormed) : ∀ p ∈ v.ownProperties.getD [], p.2.WellFormed := by
  cases v with
  | error | object => exact wellFormedProperties_iff.mp hv.2
  | bytes content =>
    intro p hp
    obtain ⟨i, hi, rfl⟩ := List.mem_mapIdx.mp hp
    trivial
  | _ => rintro p ⟨⟩

theorem wellFormed_withoutHash (hv : v.WellFormed) : v.withoutHash.WellFormed :=
  ⟨(nodup_ownProperties hv).sublist (List.filter_sublist.map _),
    wellFormedProperties_iff.mpr (fun p hp => wellFormed_ownProperties hv p (List.mem_filter.mp hp).1)⟩

def hashedDocuments (v : Payload) : List (String × Except SecurityError Json) :=
  ((v.ownProperties.getD []).filter (fun p => p.1 ≠ "hash")).map (fun p => (p.1, p.2.document))

theorem mem_hashedDocuments (hv : v.WellFormed) {made : Except SecurityError Json} :
    (key, made) ∈ v.hashedDocuments ↔ key ≠ "hash" ∧ ∃ x, v.get key = some x ∧ x.document = made := by
  simp only [hashedDocuments, List.mem_map, List.mem_filter, Prod.exists, Prod.mk.injEq,
    decide_eq_true_eq, get_eq_some_iff hv]
  constructor
  · rintro ⟨k, x, ⟨hmem, hkey⟩, rfl, hmade⟩
    exact ⟨hkey, x, hmem, hmade⟩
  · rintro ⟨hkey, x, hmem, hmade⟩
    exact ⟨key, x, ⟨hmem, hkey⟩, rfl, hmade⟩

theorem document_withoutHash {doc : Json} (h : v.withoutHash.document = .ok doc) : ∃ fields, doc = .object fields ∧
      v.hashedDocuments.Perm (fields.map (fun p => (p.1, Except.ok p.2))) := by
  rw [withoutHash, document, fieldDocuments_eq] at h
  cases hordered : inKeyOrder Prod.mk (((v.ownProperties.getD []).filter
      (fun p => p.1 ≠ "hash")).map (fun p => (p.1, p.2.document))) with
  | error err => rw [hordered] at h; cases h
  | ok fields =>
    rw [hordered] at h
    refine ⟨fields, (Except.ok.inj h).symm, ?_⟩
    rw [← inKeyOrder_eq_ok hordered]
    exact (sortByKey_perm _).symm

theorem document_of_withoutHash (hv : v.WellFormed) (hw : w.WellFormed) {doc : Json}
    (h : v.withoutHash.document = .ok doc) (h' : w.withoutHash.document = .ok doc) (hkey : key ≠ "hash")
    {x : Payload} (hx : v.get key = some x) :
    ∃ y, w.get key = some y ∧ y.document = x.document := by
  obtain ⟨fields, rfl, hperm⟩ := document_withoutHash h
  obtain ⟨fields', hdoc, hperm'⟩ := document_withoutHash h'
  obtain rfl := Json.object.inj hdoc
  have hmem := (mem_hashedDocuments hv).mpr ⟨hkey, x, hx, rfl⟩
  rw [(hperm.trans hperm'.symm).mem_iff, mem_hashedDocuments hw] at hmem
  exact hmem.2

def Scalar (v : Payload) : Prop := (∃ s, v = .string s) ∨ ∃ value, v = .number value

theorem Scalar.eq_of_document (hv : v.Scalar) (hw : w.Scalar) (h : v.document = w.document) : v = w := by
  obtain ⟨s, rfl⟩ | ⟨value, rfl⟩ := hv
  · obtain ⟨s', rfl⟩ | ⟨value', rfl⟩ := hw
    · rw [Json.string.inj (Except.ok.inj h)]
    · cases Except.ok.inj h
  · obtain ⟨s', rfl⟩ | ⟨value', rfl⟩ := hw
    · cases Except.ok.inj h
    · rw [Subtype.ext (Json.number.inj (Except.ok.inj h))]

end Payload

/-- What `auditEntryShape` makes sure of. -/
structure Shaped (entry : Payload) (sequence : Nat) (previousHash : String) : Prop where
  scalar : ∀ key v, key ≠ "data" → entry.get key = some v → v.Scalar
  sequence : entry.numeral "sequence" = some (sequence : ℚ)
  previousHash : entry.text "previousHash" = some previousHash

theorem scalar_of_text (h : (v.text key).isNone = false) (hw : v.get key = some w) : w.Scalar := by
  cases htext : v.text key with
  | none => rw [htext] at h; cases h
  | some s =>
    rw [Payload.text_eq_some htext] at hw
    exact .inl ⟨s, (Option.some.inj hw).symm⟩

theorem scalar_of_numeral {q : ℚ} (h : v.numeral key = some q) (hw : v.get key = some w) : w.Scalar := by
  obtain ⟨value, hvalue, -⟩ := Payload.numeral_eq_some h
  rw [hvalue] at hw
  exact .inr ⟨value, (Option.some.inj hw).symm⟩

variable {entry : Payload}

theorem shaped_of_auditEntryShape {sequence : Nat} {previousHash : String}
    (h : auditEntryShape entry sequence previousHash = true) : Shaped entry sequence previousHash := by
  unfold auditEntryShape at h
  split at h
  · cases h
  rename_i properties hown
  dsimp only at h
  split_ifs at h with hkeys hfields
  simp only [Bool.or_eq_true, decide_eq_true_eq, List.any_eq_true, not_or, not_exists, not_and, Decidable.not_not] at hkeys
  simp only [Bool.or_eq_true, Bool.and_eq_true, decide_eq_true_eq, not_or, not_and, Decidable.not_not,
    Bool.not_eq_true] at hfields
  obtain ⟨⟨⟨⟨⟨⟨⟨⟨⟨⟨⟨⟨hformat, hversion⟩, hsequence⟩, heventId⟩, hoccurredAt⟩, htenantId⟩, hsubjectId⟩,
    haction⟩, houtcome⟩, hdata⟩, hprevious⟩, -⟩, hhash⟩ := hfields
  refine ⟨?_, hsequence, hprevious⟩
  intro key v hne hget
  have hmem := Payload.mem_of_get hget
  rw [hown, Option.getD_some] at hmem
  have hactual : key ∈ properties.map Prod.fst := List.mem_map.mpr ⟨(key, v), hmem, rfl⟩
  have hexpected := hkeys.2 key hactual
  have htext : ∀ {key : String} {p : String → Bool}, (entry.text key).all p = false → (entry.text key).isNone = false := by
    intro key p hall
    cases htext : entry.text key with
    | none => rw [htext] at hall; cases hall
    | some s => rfl
  simp only [expectedKeys, List.mem_append, List.mem_cons, List.not_mem_nil, or_false] at hexpected
  rcases hexpected with ((rfl | rfl | rfl | rfl | rfl | rfl) | hsubject) | rfl | rfl | rfl | rfl | rfl
  · exact scalar_of_text (by rw [hformat]; rfl) hget
  · exact scalar_of_numeral hversion hget
  · exact scalar_of_numeral hsequence hget
  · exact scalar_of_text heventId hget
  · exact scalar_of_text hoccurredAt hget
  · exact scalar_of_text htenantId hget
  · -- The subject is among the expected keys only where it is among the actual ones.
    split_ifs at hsubject with hhas
    · rw [List.mem_singleton] at hsubject
      subst hsubject
      exact scalar_of_text (hsubjectId hactual) hget
    · cases hsubject
  · exact scalar_of_text haction hget
  · exact scalar_of_text (htext houtcome) hget
  · exact absurd rfl hne
  · exact scalar_of_text (by rw [hprevious]; rfl) hget
  · exact scalar_of_text (htext hhash) hget

theorem nodup_expectedKeys (hasSubject : Bool) : (expectedKeys hasSubject).Nodup := by
  cases hasSubject <;> decide

theorem subjectId_mem_expectedKeys (hasSubject : Bool) :
    decide ("subjectId" ∈ expectedKeys hasSubject) = hasSubject := by
  cases hasSubject <;> decide

/-- The loop goes through the entries and ends in the state. -/
def Accepts (sha : Sha256) (entries : List Payload) (s : ChainState) : Prop :=
  entries.foldlM (checkEntry sha) {} = some s

variable {entries : List Payload}

theorem accepts_of_verify (h : verifyAuditChain sha entries = true) :
    ∃ s, Accepts sha entries s := Option.isSome_iff_exists.mp h

theorem accepts_snoc {s' : ChainState} : Accepts sha (entries ++ [entry]) s' ↔
      ∃ s, Accepts sha entries s ∧ checkEntry sha s entry = some s' := by
  unfold Accepts
  rw [List.foldlM_append]
  simp [Option.bind_eq_some_iff]

/-- An entry that the loop goes past. -/
structure Checked (sha : Sha256) (s : ChainState) (entry : Payload) (s' : ChainState) : Prop where
  shape : auditEntryShape entry (s.index + 1) s.previousHash = true
  eventId : ∃ eventId, entry.text "eventId" = some eventId ∧ eventId ∉ s.eventIds ∧
    s'.eventIds = s.eventIds ++ [eventId]
  hash : entry.text "hash" = some s'.previousHash ∧ s'.previousHash ∉ s.hashes
  hashes : s'.hashes = s.hashes ++ [s'.previousHash]
  hashed : ∃ text, entry.withoutHash.canonicalize = .ok text ∧ s'.previousHash = sha.digest text
  index : s'.index = s.index + 1

variable {s : ChainState}

theorem checked_of_eq_some {s' : ChainState} (h : checkEntry sha s entry = some s') : Checked sha s entry s' := by
  unfold checkEntry at h
  split_ifs at h with hshape
  split at h
  · rename_i eventId hash heventId hhash
    split_ifs at h with hseen hwrong
    cases h
    simp only [Bool.or_eq_true, decide_eq_true_eq, not_or] at hseen
    rw [not_not] at hwrong
    refine ⟨by simpa using hshape, ⟨eventId, heventId, hseen.1, rfl⟩, ⟨hhash, hseen.2⟩, rfl, ?_, rfl⟩
    unfold auditHash at hwrong
    cases htext : entry.withoutHash.canonicalize with
    | error err => rw [htext] at hwrong; cases hwrong
    | ok text =>
      rw [htext] at hwrong
      exact ⟨text, rfl, (Except.ok.inj hwrong).symm⟩
  · cases h

theorem Accepts.state (h : Accepts sha entries s) : s.index = entries.length ∧
    s.previousHash = (entries.getLast?.bind (fun entry => entry.text "hash")).getD AUDIT_GENESIS_HASH ∧
    s.eventIds = entries.filterMap (fun entry => entry.text "eventId") ∧
    s.hashes = entries.filterMap (fun entry => entry.text "hash") := by
  induction entries using List.reverseRecOn generalizing s with
  | nil =>
    cases h
    exact ⟨rfl, rfl, rfl, rfl⟩
  | append_singleton entries entry ih =>
    obtain ⟨s0, hs0, hcheck⟩ := accepts_snoc.mp h
    obtain ⟨hindex, -, heventIds, hhashes⟩ := ih hs0
    have hchecked := checked_of_eq_some hcheck
    obtain ⟨eventId, heventId, -, hids⟩ := hchecked.eventId
    have hhash := hchecked.hash.1
    refine ⟨?_, ?_, ?_, ?_⟩
    · rw [hchecked.index, hindex, List.length_append, List.length_singleton]
    · rw [List.getLast?_concat, Option.bind_some, hhash, Option.getD_some]
    · rw [hids, heventIds, List.filterMap_append]
      simp [heventId]
    · rw [hchecked.hashes, hhashes, List.filterMap_append]
      simp [hhash]

theorem Accepts.checked (h : Accepts sha entries s) :
    ∀ entry ∈ entries, ∃ before after, Checked sha before entry after := by
  induction entries using List.reverseRecOn generalizing s with
  | nil => rintro entry ⟨⟩
  | append_singleton entries last ih =>
    obtain ⟨before, hbefore, hcheck⟩ := accepts_snoc.mp h
    intro entry hentry
    rcases List.mem_append.mp hentry with hentry | hentry
    · exact ih hbefore entry hentry
    · obtain rfl := List.mem_singleton.mp hentry
      exact ⟨before, s, checked_of_eq_some hcheck⟩

theorem isAuditHash_digest (sha : Sha256) (text : String) : isAuditHash (sha.digest text) = true := by
  have hlist : (sha.digest text).toList = "sha256:".toList ++ (sha.hex text).toList := by
    unfold Sha256.digest
    rw [String.toList_append]
  have hseven : "sha256:".toList.length = 7 := by decide
  unfold isAuditHash
  rw [hlist, List.take_left' hseven, List.drop_left' hseven, sha.isHex]
  rfl

theorem Accepts.previousHash (h : Accepts sha entries s) :
    s.previousHash = AUDIT_GENESIS_HASH ∨ isAuditHash s.previousHash = true := by
  rcases List.eq_nil_or_concat' entries with rfl | ⟨before, entry, rfl⟩
  · cases h
    exact .inl rfl
  · obtain ⟨s0, -, hcheck⟩ := accepts_snoc.mp h
    obtain ⟨text, -, hdigest⟩ := (checked_of_eq_some hcheck).hashed
    exact .inr (hdigest ▸ isAuditHash_digest sha text)

/-! ## Chains with one last hash -/

theorem digest_inj {texts : Set String} (hinj : Set.InjOn sha.hex texts) {text text' : String}
    (htext : text ∈ texts) (htext' : text' ∈ texts) (h : sha.digest text = sha.digest text') :
    text = text' := by
  refine hinj htext htext' ?_
  have hlist := congrArg String.toList h
  unfold Sha256.digest at hlist
  rw [String.toList_append, String.toList_append] at hlist
  exact String.toList_injective (List.append_cancel_left hlist)

theorem sameEntry_of_text {entry' : Payload} (hv : entry.WellFormed) (hv' : entry'.WellFormed)
    {sequence sequence' : Nat} {previous previous' text : String} (hshaped : Shaped entry sequence previous)
    (hshaped' : Shaped entry' sequence' previous') (htext : entry.withoutHash.canonicalize = .ok text)
    (htext' : entry'.withoutHash.canonicalize = .ok text) (hhash : entry.get "hash" = entry'.get "hash") :
    SameEntry entry entry' := by
  have hdocs := Payload.document_eq_of_canonicalize_eq (Payload.wellFormed_withoutHash hv)
    (Payload.wellFormed_withoutHash hv') htext htext'
  obtain ⟨doc, hdoc, -⟩ := Payload.canonicalize_eq_ok htext
  have hdoc' : entry'.withoutHash.document = .ok doc := hdocs ▸ hdoc
  have hfield : ∀ key, key ≠ "hash" →
      (entry.get key).map Payload.document = (entry'.get key).map Payload.document := by
    intro key hkey
    cases hx : entry.get key with
    | some x =>
      obtain ⟨y, hy, hsame⟩ := Payload.document_of_withoutHash hv hv' hdoc hdoc' hkey hx
      rw [hy, Option.map_some, Option.map_some, hsame]
    | none =>
      cases hy : entry'.get key with
      | none => rfl
      | some y =>
        obtain ⟨x, hx', -⟩ := Payload.document_of_withoutHash hv' hv hdoc' hdoc hkey hy
        rw [hx] at hx'
        cases hx'
  refine ⟨?_, hfield "data" (by decide)⟩
  intro key hkey
  by_cases hkeyHash : key = "hash"
  · exact hkeyHash ▸ hhash
  have hsame := hfield key hkeyHash
  cases hx : entry.get key with
  | none =>
    cases hy : entry'.get key with
    | none => rfl
    | some y => rw [hx, hy] at hsame; cases hsame
  | some x =>
    cases hy : entry'.get key with
    | none => rw [hx, hy] at hsame; cases hsame
    | some y =>
      rw [hx, hy, Option.map_some, Option.map_some] at hsame
      rw [(hshaped.scalar key x hkey hx).eq_of_document (hshaped'.scalar key y hkey hy) (Option.some.inj hsame)]

theorem serializations_mono {entries' : List Payload} (h : entries ⊆ entries') :
    serializations entries ⊆ serializations entries' := by
  rintro text ⟨entry, hentry, htext⟩
  exact ⟨entry, h hentry, htext⟩

theorem getLast?_eq_some {α : Type} {l : List α} {a : α} (h : a ∈ l.getLast?) : ∃ l', l = l' ++ [a] := by
  obtain ⟨hne, rfl⟩ := List.mem_getLast?_eq_getLast h
  exact ⟨l.dropLast, (List.dropLast_append_getLast hne).symm⟩

theorem forall₂_sameEntry (entries : List Payload) : ∀ entries' : List Payload,
    (∀ entry ∈ entries ++ entries', entry.WellFormed) →
    Set.InjOn sha.hex (serializations (entries ++ entries')) →
    ∀ s s', Accepts sha entries s → Accepts sha entries' s' → SameLastHash entries entries' →
      List.Forall₂ SameEntry entries entries' := by
  induction entries using List.reverseRecOn with
  | nil =>
    rintro entries' - - s s' - - ⟨entry, ⟨⟩, -⟩
  | append_singleton before entry ih =>
    rintro entries' hv hinj s s' hs hs' ⟨last, hlast, entry', hlast', hhash⟩
    rw [List.getLast?_concat, Option.mem_some_iff] at hlast
    subst hlast
    obtain ⟨before', rfl⟩ := getLast?_eq_some hlast'
    obtain ⟨t, ht, hcheck⟩ := accepts_snoc.mp hs
    obtain ⟨t', ht', hcheck'⟩ := accepts_snoc.mp hs'
    have hc := checked_of_eq_some hcheck
    have hc' := checked_of_eq_some hcheck'
    obtain ⟨text, htext, hdigest⟩ := hc.hashed
    obtain ⟨text', htext', hdigest'⟩ := hc'.hashed
    -- One hash, so one digest, so one text.
    have hsameHash : s.previousHash = s'.previousHash := by
      have := (Payload.text_eq_some hc.hash.1).symm.trans (hhash.trans (Payload.text_eq_some hc'.hash.1))
      exact Payload.string.inj (Option.some.inj this)
    have hsameText : text = text' :=
      digest_inj hinj ⟨entry, by simp, htext⟩ ⟨entry', by simp, htext'⟩
        (hdigest.symm.trans (hsameHash.trans hdigest'))
    subst hsameText
    have hshaped := shaped_of_auditEntryShape hc.shape
    have hshaped' := shaped_of_auditEntryShape hc'.shape
    have hsame := sameEntry_of_text (hv entry (by simp)) (hv entry' (by simp)) hshaped hshaped' htext
      htext' hhash
    -- The entries carry the same hash of the entry before them, at the same place.
    have hsequence := hshaped.sequence
    have hprevious := hshaped.previousHash
    rw [Payload.numeral, hsame.properties "sequence" (by decide), ← Payload.numeral,
      hshaped'.sequence] at hsequence
    rw [Payload.text, hsame.properties "previousHash" (by decide), ← Payload.text,
      hshaped'.previousHash] at hprevious
    have hlength : before'.length = before.length := by
      have hindex : t'.index + 1 = t.index + 1 := by exact_mod_cast Option.some.inj hsequence
      rw [ht.state.1, ht'.state.1] at hindex
      omega
    have hbefore : List.Forall₂ SameEntry before before' := by
      rcases List.eq_nil_or_concat' before with rfl | ⟨front, x, rfl⟩
      · rw [List.eq_nil_of_length_eq_zero hlength]
        exact List.Forall₂.nil
      obtain ⟨front', x', rfl⟩ : ∃ front' x', before' = front' ++ [x'] := by
        rcases List.eq_nil_or_concat' before' with rfl | h
        · simp at hlength
        · exact h
      obtain ⟨u, -, hx⟩ := accepts_snoc.mp ht
      obtain ⟨u', -, hx'⟩ := accepts_snoc.mp ht'
      have hhashes : x.get "hash" = x'.get "hash" := by
        rw [Payload.text_eq_some (checked_of_eq_some hx).hash.1,
          Payload.text_eq_some (checked_of_eq_some hx').hash.1, Option.some.inj hprevious]
      refine ih (front' ++ [x']) ?_ ?_ t t' ht ht' ?_
      · intro e he
        exact hv e (by simp only [List.mem_append] at he ⊢; tauto)
      · refine hinj.mono (serializations_mono ?_)
        intro e he
        simp only [List.mem_append] at he ⊢
        tauto
      · exact ⟨x, by simp, x', by simp, hhashes⟩
    exact List.rel_append hbefore (List.Forall₂.cons hsame List.Forall₂.nil)

/-- The entries of a log are values with distinct properties. -/
def WellFormedLog (log : AuditLog) : Prop := ∀ entry ∈ log.records, entry.WellFormed

namespace Payload

theorem keys_sanitizeProperties (secrets : List String) (depth : Nat)
    (properties : List (String × Payload)) :
    (sanitizeProperties secrets depth properties).map Prod.fst = properties.map Prod.fst := by
  induction properties with
  | nil => rfl
  | cons p properties ih => rw [sanitizeProperties, List.map_cons, List.map_cons, ih]

theorem keys_sanitizeItems (secrets : List String) (depth index : Nat) (items : List Payload) :
    (sanitizeItems secrets depth index items).map Prod.fst =
      (List.range' index items.length).map toString := by
  induction items generalizing index with
  | nil => rfl
  | cons v items ih =>
    rw [sanitizeItems, List.map_cons, ih, List.length_cons, List.range'_succ, List.map_cons]

mutual

theorem wellFormed_sanitizeValue (secrets : List String) (depth : Nat) {v : Payload}
    (hv : v.WellFormed) : (sanitizeValue secrets depth v).WellFormed := by
  unfold sanitizeValue
  split_ifs with hdepth
  · trivial
  match v with
  | .null | .undefined | .boolean _ | .number _ | .nonFinite | .string _ | .bigint _ | .unsupported
  | .bytes _ | .date none | .date (some _) | .collection | .circular => trivial
  | .array items =>
    refine ⟨?_, wellFormed_sanitizeItems secrets (depth + 1) 0 hv⟩
    rw [keys_sanitizeItems]
    exact List.Nodup.map (fun m n h => Nat.repr_injective h) List.nodup_range'
  | .error name message properties =>
    refine ⟨OrderedMap.keys_nodup _, wellFormedProperties_iff.mpr ?_⟩
    intro p hp
    have hmem := OrderedMap.mem_of_mem_ofList hp
    simp only [List.mem_append, List.mem_cons, List.not_mem_nil, or_false] at hmem
    rcases hmem with (rfl | rfl) | hmem
    · trivial
    · trivial
    · exact wellFormedProperties_iff.mp (wellFormed_sanitizeProperties secrets (depth + 1) hv.2) p hmem
  | .object plain properties =>
    refine ⟨?_, wellFormed_sanitizeProperties secrets (depth + 1) hv.2⟩
    rw [keys_sanitizeProperties]
    exact hv.1

theorem wellFormed_sanitizeItems (secrets : List String) (depth index : Nat) {items : List Payload}
    (hv : WellFormedItems items) : WellFormedProperties (sanitizeItems secrets depth index items) := by
  match items with
  | [] => trivial
  | v :: items =>
    exact ⟨wellFormed_sanitizeValue secrets depth hv.1, wellFormed_sanitizeItems secrets depth (index + 1) hv.2⟩

theorem wellFormed_sanitizeProperties (secrets : List String) (depth : Nat)
    {properties : List (String × Payload)} (hv : WellFormedProperties properties) :
    WellFormedProperties (sanitizeProperties secrets depth properties) := by
  match properties with
  | [] => trivial
  | (key, v) :: properties =>
    refine ⟨?_, wellFormed_sanitizeProperties secrets depth hv.2⟩
    split_ifs
    · trivial
    · exact wellFormed_sanitizeValue secrets depth hv.1

end

theorem wellFormed_sourceData (input : AuditEventInput) : input.sourceData.WellFormed := by
  unfold AuditEventInput.sourceData
  split
  · split
    · trivial
    · exact input.details.property
  · exact input.data.property

end Payload

namespace AuditLog

/-- What a call of `append` that returns has checked, and the entry that it adds. -/
structure Appends (sha : Sha256) (log : AuditLog) (input : AuditEventInput) (entry : Payload) : Prop where
  verified : verifyAuditChain sha log.records = true
  tenantId : (identifier input.tenantId "tenantId").isOk = true
  subjectId : ∀ subjectId ∈ input.subjectId, (identifier subjectId "subjectId").isOk = true
  action : (identifier input.action "action").isOk = true
  outcome : input.outcome ∈ AUDIT_OUTCOMES
  made : ∃ eventId occurredAt text, (identifier eventId "eventId").isOk = true ∧
    (∀ entry ∈ log.records, entry.text "eventId" ≠ some eventId) ∧
    (printable occurredAt "occurredAt" 128).isOk = true ∧
    (Payload.object true (log.unsignedEntry input eventId occurredAt)).canonicalize = .ok text ∧
    entry = .object true (log.unsignedEntry input eventId occurredAt ++ [("hash", .string (sha.digest text))])

theorem isOk_of_eq_ok {α : Type} {x : Except SecurityError α} {a : α} (h : x = .ok a) : x.isOk = true := by
  rw [h]
  rfl

theorem append_eq_ok {log log' : AuditLog} {generated now : String} {input : AuditEventInput}
    (h : log.append sha generated now input = .ok (log', entry)) :
    log' = { log with records := log.records ++ [entry] } ∧ Appends sha log input entry := by
  unfold append at h
  obtain ⟨hverified, h⟩ := of_check_ok h
  obtain ⟨_, htenant, h⟩ := of_bind_ok h
  obtain ⟨_, hsubject, h⟩ := of_bind_ok h
  obtain ⟨_, haction, h⟩ := of_bind_ok h
  obtain ⟨houtcome, h⟩ := of_check_ok h
  obtain ⟨eventId, heventId, h⟩ := of_bind_ok h
  obtain ⟨hunique, h⟩ := of_check_ok h
  obtain ⟨occurredAt, hoccurred, h⟩ := of_bind_ok h
  obtain ⟨hash, hhash, h⟩ := of_bind_ok h
  cases h
  rw [not_not] at houtcome
  have hchecked := identifier_eq_ok heventId
  refine ⟨rfl, by simpa using hverified, isOk_of_eq_ok htenant, ?_, isOk_of_eq_ok haction, houtcome, ?_⟩
  · intro subjectId hmem
    rw [Option.mem_def] at hmem
    rw [hmem] at hsubject
    cases hcheck : identifier subjectId "subjectId" with
    | error err => rw [Option.mapM_some, hcheck] at hsubject; cases hsubject
    | ok checked => rfl
  · unfold auditHash at hhash
    cases htext : (Payload.object true (log.unsignedEntry input eventId occurredAt)).canonicalize with
    | error err => rw [htext] at hhash; cases hhash
    | ok text =>
      rw [htext] at hhash
      cases hhash
      refine ⟨eventId, occurredAt, text, hchecked ▸ isOk_of_eq_ok heventId, ?_,
        printable_eq_ok hoccurred ▸ isOk_of_eq_ok hoccurred, htext, rfl⟩
      intro entry hentry heq
      exact hunique (List.any_eq_true.mpr ⟨entry, hentry, decide_eq_true heq⟩)

def madeEntry (sha : Sha256) (log : AuditLog) (input : AuditEventInput)
    (eventId occurredAt text : String) : Payload :=
  .object true (log.unsignedEntry input eventId occurredAt ++ [("hash", .string (sha.digest text))])

section Made

variable {log : AuditLog} {input : AuditEventInput} {eventId occurredAt text : String}

theorem withoutHash_madeEntry : (madeEntry sha log input eventId occurredAt text).withoutHash =
    .object true (log.unsignedEntry input eventId occurredAt) := by
  unfold madeEntry unsignedEntry
  cases input.subjectId <;> rfl

theorem keys_madeEntry (sha : Sha256) (log : AuditLog) (input : AuditEventInput)
    (eventId occurredAt text : String) :
    (((madeEntry sha log input eventId occurredAt text).ownProperties.getD []).map
    Prod.fst) = expectedKeys input.subjectId.isSome := by
  unfold madeEntry unsignedEntry
  cases input.subjectId <;> rfl

/-- The properties of the entry that a call adds. -/
structure MadeFields (sha : Sha256) (log : AuditLog) (input : AuditEventInput)
    (eventId occurredAt text : String) (entry : Payload) : Prop where
  format : entry.text "format" = some AUDIT_LOG_FORMAT
  version : entry.numeral "version" = some (AUDIT_LOG_VERSION : ℚ)
  sequence : entry.numeral "sequence" = some ((log.records.length + 1 : Nat) : ℚ)
  eventId : entry.text "eventId" = some eventId
  occurredAt : entry.text "occurredAt" = some occurredAt
  tenantId : entry.text "tenantId" = some input.tenantId
  subjectId : entry.text "subjectId" = input.subjectId
  action : entry.text "action" = some input.action
  outcome : entry.text "outcome" = some input.outcome
  data : (entry.get "data").isNone = false
  previousHash : entry.text "previousHash" = some ((log.records.getLast?.bind
    (fun entry => entry.text "hash")).getD AUDIT_GENESIS_HASH)
  hash : entry.text "hash" = some (sha.digest text)

theorem fields_madeEntry (sha : Sha256) (log : AuditLog) (input : AuditEventInput)
    (eventId occurredAt text : String) :
    MadeFields sha log input eventId occurredAt text
    (madeEntry sha log input eventId occurredAt text) := by
  unfold madeEntry unsignedEntry
  cases hsubject : input.subjectId with
  | none | some => exact ⟨rfl, rfl, rfl, rfl, rfl, rfl, by rw [hsubject]; rfl, rfl, rfl, rfl, rfl, rfl⟩

theorem wellFormed_madeEntry (sha : Sha256) (log : AuditLog) (input : AuditEventInput)
    (eventId occurredAt text : String) :
    (madeEntry sha log input eventId occurredAt text).WellFormed := by
  have hdata : (input.sourceData.sanitizeSecrets log.sanitizerOptions).WellFormed :=
    Payload.wellFormed_sanitizeValue _ 0 (Payload.wellFormed_sourceData input)
  have hkeys : ((madeEntry sha log input eventId occurredAt text).ownProperties.getD []).map Prod.fst |>.Nodup := by
    rw [keys_madeEntry]
    exact nodup_expectedKeys _
  refine ⟨hkeys, Payload.wellFormedProperties_iff.mpr ?_⟩
  unfold unsignedEntry
  intro p hp
  simp only [List.mem_append, List.mem_cons, List.not_mem_nil, or_false, List.mem_map] at hp
  rcases hp with (((rfl | rfl | rfl | rfl | rfl | rfl) | ⟨subjectId, -, rfl⟩) | rfl | rfl | rfl | rfl) | rfl
  all_goals first | exact hdata | trivial

theorem auditEntryShape_madeEntry (hs : Accepts sha log.records s) (h : Appends sha log input entry)
    (heventId : (identifier eventId "eventId").isOk = true)
    (hoccurred : (printable occurredAt "occurredAt" 128).isOk = true) :
    auditEntryShape (madeEntry sha log input eventId occurredAt text) (s.index + 1) s.previousHash = true := by
  have hfields := fields_madeEntry sha log input eventId occurredAt text
  obtain ⟨hindex, hprevious, -, -⟩ := hs.state
  have hprevious' := hs.previousHash
  have hkeys := keys_madeEntry sha log input eventId occurredAt text
  unfold auditEntryShape
  split
  · rename_i hown
    cases hown
  rename_i properties hown
  rw [hown, Option.getD_some] at hkeys
  dsimp only
  rw [hkeys, subjectId_mem_expectedKeys, if_neg (by simp), if_neg]
  · rw [hfields.eventId, hfields.occurredAt, hfields.tenantId, hfields.subjectId, hfields.action]
    simp only [Option.any_some, heventId, hoccurred, h.tenantId, h.action, Bool.true_and, Bool.and_true]
    cases hsubject : input.subjectId with
    | none => rfl
    | some subjectId => exact h.subjectId subjectId hsubject
  · rw [hfields.format, hfields.version, hfields.sequence, hfields.eventId, hfields.occurredAt,
      hfields.tenantId, hfields.subjectId, hfields.action, hfields.outcome, hfields.data,
      hfields.previousHash, hfields.hash, ← hprevious, hindex]
    have houtcome := h.outcome
    have hhash := isAuditHash_digest sha text
    cases input.subjectId <;> simp [houtcome, hhash] <;> tauto

theorem hash_notMem (hs : Accepts sha log.records s) (hlog : WellFormedLog log)
    (hunique : ∀ entry ∈ log.records, entry.text "eventId" ≠ some eventId)
    (htext : (madeEntry sha log input eventId occurredAt text).withoutHash.canonicalize = .ok text)
    (hinj : Set.InjOn sha.hex (serializations (log.records ++ [madeEntry sha log input eventId occurredAt text]))) :
    sha.digest text ∉ s.hashes := by
  rw [hs.state.2.2.2, List.mem_filterMap]
  rintro ⟨old, hold, hhash⟩
  obtain ⟨before, after, hchecked⟩ := hs.checked old hold
  obtain ⟨text', htext', hdigest⟩ := hchecked.hashed
  rw [hchecked.hash.1, hdigest] at hhash
  obtain rfl := digest_inj hinj ⟨old, by simp [hold], htext'⟩
    ⟨madeEntry sha log input eventId occurredAt text, by simp, htext⟩ (Option.some.inj hhash)
  -- One text, so one event id.
  have hv := wellFormed_madeEntry sha log input eventId occurredAt text'
  obtain ⟨doc, hdoc, -⟩ := Payload.canonicalize_eq_ok htext
  have hdoc' : old.withoutHash.document = .ok doc :=
    Payload.document_eq_of_canonicalize_eq (Payload.wellFormed_withoutHash (hlog old hold))
      (Payload.wellFormed_withoutHash hv) htext' htext ▸ hdoc
  obtain ⟨y, hy, hsame⟩ := Payload.document_of_withoutHash hv (hlog old hold) hdoc hdoc'
    (by decide : "eventId" ≠ "hash") (Payload.text_eq_some (fields_madeEntry sha log input eventId occurredAt text').eventId)
  obtain ⟨oldId, holdId, -⟩ := hchecked.eventId
  rw [Payload.text_eq_some holdId] at hy
  cases hy
  rw [Json.string.inj (Except.ok.inj hsame)] at holdId
  exact hunique old hold holdId

end Made

theorem verify_append {log : AuditLog} {input : AuditEventInput} (hlog : WellFormedLog log)
    (h : Appends sha log input entry) (hinj : Set.InjOn sha.hex (serializations (log.records ++ [entry]))) :
    entry.WellFormed ∧ verifyAuditChain sha (log.records ++ [entry]) = true := by
  obtain ⟨s, hs⟩ := accepts_of_verify h.verified
  obtain ⟨eventId, occurredAt, text, heventId, hunique, hoccurred, htext, rfl⟩ := h.made
  refine ⟨wellFormed_madeEntry sha log input eventId occurredAt text, ?_⟩
  have hfields := fields_madeEntry sha log input eventId occurredAt text
  have htext' : (madeEntry sha log input eventId occurredAt text).withoutHash.canonicalize = .ok text := by
    rw [withoutHash_madeEntry]
    exact htext
  have hnew : eventId ∉ s.eventIds := by
    rw [hs.state.2.2.1, List.mem_filterMap]
    rintro ⟨old, hold, hid⟩
    exact hunique old hold hid
  have hauditHash : auditHash sha (madeEntry sha log input eventId occurredAt text).withoutHash =
      .ok (sha.digest text) := by
    unfold auditHash
    rw [htext']
    rfl
  have hhash := hash_notMem hs hlog hunique htext' hinj
  have hcheck : ∃ s', checkEntry sha s (madeEntry sha log input eventId occurredAt text) = some s' := by
    unfold checkEntry
    rw [auditEntryShape_madeEntry hs h heventId hoccurred, hfields.eventId, hfields.hash, hauditHash]
    simp [hnew, hhash]
  obtain ⟨s', hs'⟩ := hcheck
  exact Option.isSome_iff_exists.mpr ⟨s', accepts_snoc.mpr ⟨s, hs, hs'⟩⟩

theorem verify_reachable {sanitizerOptions : SecretSanitizerOptions} {log : AuditLog}
    (h : (AuditLog.system sha sanitizerOptions).Reachable log) :
    Set.InjOn sha.hex (serializations log.records) →
      WellFormedLog log ∧ verifyAuditChain sha log.records = true := by
  refine h.invariant (fun log => Set.InjOn sha.hex (serializations log.records) →
    WellFormedLog log ∧ verifyAuditChain sha log.records = true) ?_ ?_
  · rintro log rfl -
    exact ⟨by rintro entry ⟨⟩, rfl⟩
  · intro log call log' ih hstep hinj
    dsimp only [AuditLog.system] at hstep
    split at hstep
    · rename_i appended entry happend
      subst hstep
      obtain ⟨rfl, happends⟩ := append_eq_ok happend
      have hlog := (ih (hinj.mono (serializations_mono (List.subset_append_left _ _)))).1
      obtain ⟨hentry, hverified⟩ := verify_append hlog happends hinj
      refine ⟨?_, hverified⟩
      intro e he
      rcases List.mem_append.mp he with he | he
      · exact hlog e he
      · exact List.mem_singleton.mp he ▸ hentry
    · subst hstep
      exact ih hinj

end AuditLog

/-- The hash of the last entry determines an accepted chain, up to what canonical texts do not tell
    apart; and every log is accepted. -/
theorem audit_chain_is_tamper_evident (sha : Sha256) : TamperEvident sha where
  binds := by
    intro entries entries' hinj hverified hverified' hlast
    obtain ⟨s, hs⟩ := accepts_of_verify hverified
    obtain ⟨s', hs'⟩ := accepts_of_verify hverified'
    rw [List.map_append] at hinj
    refine forall₂_sameEntry _ _ ?_ hinj s s' hs hs' hlast
    intro entry hentry
    rw [← List.map_append, List.mem_map] at hentry
    obtain ⟨v, -, rfl⟩ := hentry
    exact v.property
  accepted := fun _ _ hlog hinj => (AuditLog.verify_reachable hlog hinj).2

def constantSha : Sha256 := ⟨fun _ => String.ofList (List.replicate 64 '0'), fun _ => by decide +kernel⟩

def firstEntry (data : Payload) : Payload :=
  .object true
    [("format", .string AUDIT_LOG_FORMAT), ("version", AuditLog.count AUDIT_LOG_VERSION),
      ("sequence", AuditLog.count 1), ("eventId", .string "event-1"), ("occurredAt", .string "today"),
      ("tenantId", .string "tenant"), ("action", .string "read"), ("outcome", .string "allow"),
      ("data", data), ("previousHash", .string AUDIT_GENESIS_HASH),
      ("hash", .string (constantSha.digest ""))]

theorem wellFormed_firstEntry (data : Payload) (h : data.WellFormed) : (firstEntry data).WellFormed := by
  refine ⟨nodup_expectedKeys false, Payload.wellFormedProperties_iff.mpr ?_⟩
  intro p hp
  simp only [List.mem_cons, List.not_mem_nil, or_false] at hp
  rcases hp with rfl | rfl | rfl | rfl | rfl | rfl | rfl | rfl | rfl | rfl | rfl
  all_goals first | exact h | trivial

/-- A date and its ISO text have one canonical text, so that an entry can hold either under one hash. -/
theorem date_is_not_bound :
    ¬ ∀ (sha : Sha256) (entries entries' : List Value),
      Set.InjOn sha.hex (serializations ((entries ++ entries').map Subtype.val)) →
      verifyAuditChain sha (entries.map Subtype.val) = true →
      verifyAuditChain sha (entries'.map Subtype.val) = true →
      SameLastHash (entries.map Subtype.val) (entries'.map Subtype.val) →
      entries.map Subtype.val = entries'.map Subtype.val := by
  intro h
  have hverified : verifyAuditChain constantSha [firstEntry (.date (some "1970-01-01T00:00:00.000Z"))] = true ∧
      verifyAuditChain constantSha [firstEntry (.string "1970-01-01T00:00:00.000Z")] = true := by
    decide +kernel
  generalize "1970-01-01T00:00:00.000Z" = iso at hverified
  have heq := h constantSha [⟨_, wellFormed_firstEntry (.date (some iso)) trivial⟩]
    [⟨_, wellFormed_firstEntry (.string iso) trivial⟩] ?_ hverified.1 hverified.2
    ⟨_, rfl, _, rfl, rfl⟩
  · have hget : (firstEntry (.date (some iso))).get "data" = (firstEntry (.string iso)).get "data" :=
      congrArg (fun e => e.get "data") (List.cons.inj heq).1
    cases Option.some.inj hget
  · -- Both entries have one text, on which every function is injective.
    have hone : ∀ e ∈ [firstEntry (.date (some iso)), firstEntry (.string iso)],
        e.withoutHash.canonicalize = (firstEntry (.string iso)).withoutHash.canonicalize := by
      intro e he
      rcases List.mem_pair.mp he with rfl | rfl
      · rfl
      · rfl
    rintro text ⟨e, he, hcanon⟩ text' ⟨e', he', hcanon'⟩ -
    rw [hone e he] at hcanon
    rw [hone e' he', hcanon] at hcanon'
    exact Except.ok.inj hcanon'

end Premise.Security
