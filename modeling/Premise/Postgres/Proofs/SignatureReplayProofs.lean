import Premise.Postgres.SignatureReplay

/-!
# Proofs: replay protection

Every accepted signature has a row, unless the row has expired; and a row expires after the window of
its signature. The signature lies in its window when it is accepted again, so that it still has its row.
-/

namespace Premise.Postgres

open Collections Control Js Protocol

variable {P K : Type} {digest : String → String} {crypto : Ed25519 P K}

/-- The signature lies in its window, and a key verifies it. -/
structure Verified (crypto : Ed25519 P K) (options : V2SignatureVerificationAsyncOptions P) (now : ℚ)
    (envelope : MemoryEnvelopeV2) (signature : DeclaredSignature) : Prop where
  inWindow : ∃ signedAtMs, dateParse signature.signedAt = some signedAtMs ∧
    InWindow options now signedAtMs
  signed : ∃ bytes key, decodeBase64 signature.value = some bytes ∧
    crypto.verifySignature (canonicalizeSignature envelope signature) key bytes = true

theorem checkSignature_eq_none {options : V2SignatureVerificationAsyncOptions P} {now : ℚ}
    {envelope : MemoryEnvelopeV2} {path : String} {signature : DeclaredSignature}
    (h : checkSignature crypto options now envelope path signature = none) :
    Verified crypto options now envelope signature := by
  unfold checkSignature at h
  split_ifs at h with hwindow
  rw [Option.any_eq_true] at hwindow
  obtain ⟨signedAtMs, hparse, hin⟩ := hwindow
  cases hkey : options.keys signature.keyId with
  | none => rw [hkey] at h; cases h
  | some key =>
    rw [hkey] at h
    dsimp only at h
    split at h
    case h_1 => cases h
    case h_2 bytes hbytes =>
      obtain ⟨hdecoded, -⟩ := Option.filter_eq_some_iff.mp hbytes
      cases hpublic : crypto.publicKey key with
      | none => rw [hpublic] at h; cases h
      | some verificationKey =>
        rw [hpublic] at h
        dsimp only at h
        split_ifs at h with hverified
        exact ⟨⟨signedAtMs, hparse, of_decide_eq_true hin⟩, bytes, verificationKey, hdecoded, hverified⟩

theorem exists_path {α : Type} (path : String) {items : List α} {a : α} (h : a ∈ items) :
    ∃ p, (p, a) ∈ indexed path items := by
  obtain ⟨i, hi⟩ := List.getElem?_of_mem h
  refine ⟨path ++ "[" ++ toString i ++ "]", List.mem_map.mpr ⟨(a, i), ?_, rfl⟩⟩
  exact List.mem_zipIdx_iff_getElem?.mpr hi

theorem indexed_getElem? {α : Type} (path : String) (items : List α) (i : Nat) :
    (indexed path items)[i]? = items[i]?.map (fun a => (path ++ "[" ++ toString i ++ "]", a)) := by
  unfold indexed
  rw [List.getElem?_map, List.getElem?_zipIdx]
  cases items[i]? <;> simp

theorem nodup_of_not_mem_take {α : Type} (l : List α) (h : ∀ i a, l[i]? = some a → a ∉ l.take i) : l.Nodup := by
  rw [List.nodup_iff_getElem?_ne_getElem?]
  intro i j hij hj heq
  rw [List.getElem?_eq_getElem hj] at heq
  refine h j l[j] (List.getElem?_eq_getElem hj) ?_
  rw [List.mem_take_iff_getElem]
  have hi : i < l.length := hij.trans hj
  rw [List.getElem?_eq_getElem hi] at heq
  exact ⟨i, by omega, Option.some.inj heq⟩

def claimOf (input : MemoryEnvelopeV2) (acceptedAt expiresAt : Int) (signature : DeclaredSignature) :
    V2SignatureReplayClaim where
  key := signature.value
  tenantId := input.tenantId
  signatureId := signature.signatureId
  keyId := signature.keyId
  signedAt := signature.signedAt
  acceptedAt := acceptedAt
  expiresAt := expiresAt

theorem verifySignatures_eq_claims {input : MemoryEnvelopeV2}
    {options : V2SignatureVerificationAsyncOptions P} {now : ℚ} {claims : List V2SignatureReplayClaim}
    (h : verifySignatures crypto input options (some now) = .claims claims) :
    input.signatures ≠ [] ∧
    (∀ signature ∈ input.signatures, Verified crypto options now input signature) ∧
    (input.signatures.map DeclaredSignature.value).Nodup ∧
    ∃ acceptedAt expiresAt, toISOString (now + options.maxClockSkewMs) = some expiresAt ∧
      claims = input.signatures.map (claimOf input acceptedAt expiresAt) := by
  unfold verifySignatures at h
  split_ifs at h with hoptions hstructure hempty
  dsimp only at h
  split_ifs at h with hfound hrepeated
  rw [not_not, List.filterMap_eq_nil_iff] at hfound hrepeated
  refine ⟨hempty, ?_, ?_, ?_⟩
  · intro signature hmem
    obtain ⟨path, hpath⟩ := exists_path "$.signatures" hmem
    have hnone : checkSignature crypto options now input path signature = none :=
      hfound (path, signature) hpath
    exact checkSignature_eq_none hnone
  · apply nodup_of_not_mem_take
    intro i value hi hearlier
    rw [List.getElem?_map, Option.map_eq_some_iff] at hi
    obtain ⟨signature, hsignature, rfl⟩ := hi
    have hmem : (("$.signatures" ++ "[" ++ toString i ++ "]", signature), i) ∈
        (indexed "$.signatures" input.signatures).zipIdx := by
      rw [List.mem_zipIdx_iff_getElem?, indexed_getElem?, hsignature]
      rfl
    have hnone := hrepeated _ hmem
    rw [← List.map_take] at hearlier
    rw [if_pos hearlier] at hnone
    cases hnone
  · split at h
    case h_1 acceptedAt expiresAt hacceptedAt hexpiresAt =>
      exact ⟨acceptedAt, expiresAt, hexpiresAt, (Verification.claims.inj h).symm⟩
    case h_2 => cases h

/-! ## The table -/

namespace ReplayTable

variable {t t' : ReplayTable} {now : ℚ}

theorem get?_deleteExpired (t : ReplayTable) (tenantId : String) (now : ℚ) (k : String × String) :
    (t.deleteExpired tenantId now).rows.get? k =
      if ∃ row, t.rows.get? k = some row ∧ k.1 = tenantId ∧ (row.expiresAt : ℚ) ≤ now then none
      else t.rows.get? k := by
  unfold deleteExpired
  rw [OrderedMap.get?_foldl_erase_filter]
  by_cases hdeleted : ∃ row, t.rows.get? k = some row ∧ k.1 = tenantId ∧ (row.expiresAt : ℚ) ≤ now
  · obtain ⟨row, hget, hexpired⟩ := hdeleted
    rw [if_pos ⟨row, hget, hexpired⟩, hget, Option.filter_some, if_neg]
    simpa using hexpired
  · rw [if_neg hdeleted]
    cases hget : t.rows.get? k with
    | none => rfl
    | some row =>
      rw [Option.filter_some, if_pos]
      rw [← decide_not, decide_eq_true_iff]
      rintro ⟨htenant, hexpired⟩
      exact hdeleted ⟨row, hget, htenant, hexpired⟩

theorem insertAll_eq_some {tenantId : String} {l : List (String × V2SignatureReplayClaim)}
    (h : t.insertAll tenantId l = .ok (some t')) :
    (∀ p ∈ l, t.rows.get? (tenantId, p.1) = none ∧ t'.rows.get? (tenantId, p.1) = some p.2) ∧
    ∀ k row, t.rows.get? k = some row → t'.rows.get? k = some row := by
  induction l generalizing t with
  | nil =>
    obtain rfl := Option.some.inj (Except.ok.inj h)
    exact ⟨nofun, fun _ _ hget => hget⟩
  | cons p l ih =>
    obtain ⟨replayDigest, claim⟩ := p
    unfold insertAll at h
    split_ifs at h with hstorable hhas
    · cases h
    obtain ⟨hrest, hkept⟩ := ih h
    rw [Bool.not_eq_true, OrderedMap.has_eq_false, ← OrderedMap.get?_eq_none_iff] at hhas
    refine ⟨?_, ?_⟩
    · intro q hq
      rcases List.mem_cons.mp hq with rfl | hq
      · exact ⟨hhas, hkept _ _ (OrderedMap.get?_set_self _ _ _)⟩
      · obtain ⟨hfree, hset⟩ := hrest q hq
        refine ⟨?_, hset⟩
        by_cases heq : (tenantId, q.1) = (tenantId, replayDigest)
        · rw [heq]
          exact hhas
        · rwa [OrderedMap.get?_set_of_ne _ _ heq] at hfree
    · intro k row hget
      refine hkept k row ?_
      rw [OrderedMap.get?_set_of_ne]
      · exact hget
      · rintro rfl
        rw [hhas] at hget
        cases hget

theorem normalizeClaim_eq_ok {store : PostgresSignatureReplayStore} {claim : V2SignatureReplayClaim}
    {p : String × V2SignatureReplayClaim} (h : store.normalizeClaim digest claim = .ok p) :
    claim.tenantId = store.tenantId ∧ p = (digest claim.key, claim) := by
  unfold PostgresSignatureReplayStore.normalizeClaim require at h
  split_ifs at h
  case neg htenant =>
    cases h
    exact ⟨not_not.mp htenant, rfl⟩
  all_goals cases h

theorem mapM_normalizeClaim {store : PostgresSignatureReplayStore} :
    ∀ {claims : List V2SignatureReplayClaim} {normalized : List (String × V2SignatureReplayClaim)},
      claims.mapM (store.normalizeClaim digest) = .ok normalized →
      (∀ claim ∈ claims, claim.tenantId = store.tenantId) ∧
      normalized = claims.map (fun claim => (digest claim.key, claim)) := by
  intro claims
  induction claims with
  | nil =>
    intro normalized h
    rw [List.mapM_nil] at h
    exact ⟨nofun, (Except.ok.inj h).symm⟩
  | cons claim claims ih =>
    intro normalized h
    rw [List.mapM_cons] at h
    cases hclaim : store.normalizeClaim digest claim with
    | error err => rw [hclaim] at h; cases h
    | ok p =>
      cases hrest : claims.mapM (store.normalizeClaim digest) with
      | error err => rw [hclaim, hrest] at h; cases h
      | ok rest =>
        rw [hclaim, hrest] at h
        cases h
        obtain ⟨htenant, rfl⟩ := normalizeClaim_eq_ok hclaim
        obtain ⟨htenants, rfl⟩ := ih hrest
        exact ⟨List.forall_mem_cons.mpr ⟨htenant, htenants⟩, rfl⟩

/-- Rows that have not expired stay in a call of `claimMany` at `now`. -/
def Keeps (t t' : ReplayTable) (now : ℚ) : Prop :=
  ∀ k row, t.rows.get? k = some row → now < row.expiresAt → t'.rows.get? k = some row

theorem Keeps.refl (t : ReplayTable) (now : ℚ) : Keeps t t now := fun _ _ hget _ => hget

/-- Every claim gets a row where there was none, or only an expired one. -/
def Claimed (t t' : ReplayTable) (digest : String → String) (claims : List V2SignatureReplayClaim)
    (now : ℚ) : Prop :=
  ∀ claim ∈ claims,
    (∀ row, t.rows.get? (claim.tenantId, digest claim.key) = some row → (row.expiresAt : ℚ) ≤ now) ∧
    t'.rows.get? (claim.tenantId, digest claim.key) = some claim

theorem keeps_deleteExpired (t : ReplayTable) (tenantId : String) (now : ℚ) :
    Keeps t (t.deleteExpired tenantId now) now := by
  intro k row hget hlive
  rw [get?_deleteExpired, if_neg, hget]
  rintro ⟨row', hget', -, hexpired⟩
  obtain rfl := Option.some.inj (hget.symm.trans hget')
  exact absurd hexpired (not_le.mpr hlive)

theorem claimMany_cases (t : ReplayTable) (store : PostgresSignatureReplayStore)
    (digest : String → String) {claims : List V2SignatureReplayClaim} (hclaims : claims ≠ []) (now : ℚ) :
    (∃ t', t.claimMany store digest claims now = (t', .ok true) ∧ Keeps t t' now ∧ Claimed t t' digest claims now) ∨
    (∃ r, t.claimMany store digest claims now = (t, r) ∧ r ≠ .ok true) := by
  unfold claimMany
  rw [if_neg hclaims]
  cases hnormalized : claims.mapM (store.normalizeClaim digest) with
  | error err => exact .inr ⟨_, rfl, nofun⟩
  | ok normalized =>
    obtain ⟨htenants, hmap⟩ := mapM_normalizeClaim hnormalized
    dsimp only
    by_cases hdistinct : (normalized.map Prod.fst).Nodup
    · rw [if_neg (not_not.mpr hdistinct)]
      split_ifs with hstorable
      · exact .inr ⟨_, rfl, nofun⟩
      · cases hinsert : (t.deleteExpired store.tenantId now).insertAll store.tenantId normalized with
        | error err => exact .inr ⟨_, rfl, nofun⟩
        | ok result =>
          cases result with
          | none => exact .inr ⟨_, rfl, nofun⟩
          | some t' =>
            obtain ⟨hinserted, hkept⟩ := insertAll_eq_some hinsert
            refine .inl ⟨t', rfl, ?_, ?_⟩
            · intro k row hget hlive
              exact hkept k row (keeps_deleteExpired t store.tenantId now k row hget hlive)
            · intro claim hclaim
              have hmem : (digest claim.key, claim) ∈ normalized := by
                rw [hmap]
                exact List.mem_map_of_mem hclaim
              obtain ⟨hfree, hset⟩ := hinserted _ hmem
              rw [htenants claim hclaim]
              refine ⟨?_, hset⟩
              intro row hget
              by_contra hlive
              have hkeep := keeps_deleteExpired t store.tenantId now _ row hget (not_le.mp hlive)
              rw [hfree] at hkeep
              cases hkeep
    · rw [if_pos hdistinct]
      exact .inr ⟨_, rfl, nofun⟩

theorem verify_cases (t : ReplayTable) (digest : String → String) (crypto : Ed25519 P K)
    (input : MemoryEnvelopeV2) (options : V2SignatureVerificationAsyncOptions P)
    (store : PostgresSignatureReplayStore) (now : ℚ) :
    (∃ t' acceptedAt expiresAt, t.verify digest crypto input options store now = (t', true) ∧
      (∀ signature ∈ input.signatures, Verified crypto options now input signature) ∧
      (input.signatures.map DeclaredSignature.value).Nodup ∧
      toISOString (now + options.maxClockSkewMs) = some expiresAt ∧
      Keeps t t' now ∧
      Claimed t t' digest (input.signatures.map (claimOf input acceptedAt expiresAt)) now) ∨
    t.verify digest crypto input options store now = (t, false) := by
  unfold verify
  cases hverification : verifySignatures crypto input options (some now) with
  | issues | threw => exact .inr rfl
  | claims claims =>
    obtain ⟨hsigned, hverified, hdistinct, acceptedAt, expiresAt, hexpiresAt, rfl⟩ :=
      verifySignatures_eq_claims hverification
    dsimp only
    have hclaims : input.signatures.map (claimOf input acceptedAt expiresAt) ≠ [] :=
      fun h => hsigned (List.map_eq_nil_iff.mp h)
    rcases claimMany_cases t store digest hclaims now with ⟨t', heq, hkeeps, hclaimed⟩ | ⟨r, heq, hr⟩
    · rw [heq]
      exact .inl ⟨t', acceptedAt, expiresAt, rfl, hverified, hdistinct, hexpiresAt, hkeeps, hclaimed⟩
    · rw [heq]
      refine .inr ?_
      cases r with
      | error err => rfl
      | ok claimed =>
        cases claimed with
        | false => rfl
        | true => exact absurd rfl hr

end ReplayTable

/-! ## The invariant -/

/-- The tenant, the bytes and the declared instant of a signature. -/
def AcceptedSignature.stamp (a : AcceptedSignature) : String × String × String :=
  (a.envelope.tenantId, a.signature.value, a.signature.signedAt)

namespace ReplayProtection

variable {largest : Int} {w w' : ReplayProtection} {call : VerifyCall P}

/-- The claim of a signature is in the table, or has expired by the last call. It expires after the
    window of the signature. -/
def Guarded (digest : String → String) (largest : Int) (w : ReplayProtection)
    (a : AcceptedSignature) : Prop :=
  ∃ signedAtMs expiresAt : Int, dateParse a.signature.signedAt = some signedAtMs ∧
    signedAtMs + largest < expiresAt ∧
    ((∃ last ∈ w.last, (expiresAt : ℚ) ≤ last) ∨
      ∃ row, w.table.rows.get? (a.envelope.tenantId, digest a.signature.value) = some row ∧
        row.expiresAt = expiresAt)

structure Protected (digest : String → String) (crypto : Ed25519 P K) (largest : Int)
    (w : ReplayProtection) : Prop where
  guarded : ∀ a ∈ w.accepted, Guarded digest largest w a
  signed : ∀ a ∈ w.accepted, ∃ bytes key, decodeBase64 a.signature.value = some bytes ∧
    crypto.verifySignature (canonicalizeSignature a.envelope a.signature) key bytes = true
  once : (w.accepted.map AcceptedSignature.stamp).Nodup

theorem protected_init : Protected digest crypto largest {} where
  guarded := fun a ha => absurd ha (List.not_mem_nil (a := a))
  signed := fun a ha => absurd ha (List.not_mem_nil (a := a))
  once := List.nodup_nil

theorem Guarded.later {a : AcceptedSignature} {now : ℚ} (h : Guarded digest largest w a)
    (hkeeps : ReplayTable.Keeps w.table w'.table now) (hclock : ∀ last ∈ w.last, last ≤ now)
    (hlast : w'.last = some now) : Guarded digest largest w' a := by
  obtain ⟨signedAtMs, expiresAt, hparse, houtlives, hstate⟩ := h
  refine ⟨signedAtMs, expiresAt, hparse, houtlives, ?_⟩
  rw [hlast]
  by_cases hexpired : (expiresAt : ℚ) ≤ now
  · exact .inl ⟨now, rfl, hexpired⟩
  rcases hstate with ⟨last, hmem, hle⟩ | ⟨row, hget, rfl⟩
  · exact absurd (hle.trans (hclock last hmem)) hexpired
  · exact .inr ⟨row, hkeeps _ row hget (not_le.mp hexpired), rfl⟩

theorem Guarded.live {a : AcceptedSignature} {signedAtMs : Int} (h : Guarded digest largest w a)
    (hclock : ∀ last ∈ w.last, last ≤ call.now) (hskew : call.options.maxClockSkewMs ≤ largest)
    (hparse : dateParse a.signature.signedAt = some signedAtMs)
    (hwindow : InWindow call.options call.now signedAtMs) :
    ∃ row, w.table.rows.get? (a.envelope.tenantId, digest a.signature.value) = some row ∧
      call.now < row.expiresAt := by
  obtain ⟨signedAtMs', expiresAt, hparse', houtlives, hstate⟩ := h
  obtain rfl := Option.some.inj (hparse.symm.trans hparse')
  have hlive : call.now < expiresAt := by
    have hnow : call.now - signedAtMs ≤ call.options.maxClockSkewMs :=
      (le_abs_self _).trans hwindow
    have hskew' : (call.options.maxClockSkewMs : ℚ) ≤ largest := by exact_mod_cast hskew
    have houtlives' : (signedAtMs : ℚ) + largest < expiresAt := by exact_mod_cast houtlives
    linarith only [hnow, hskew', houtlives']
  rcases hstate with ⟨last, hmem, hle⟩ | ⟨row, hget, rfl⟩
  · exact absurd (hle.trans (hclock last hmem)) (not_le.mpr hlive)
  · exact ⟨row, hget, hlive⟩

theorem Protected.verify (h : Protected digest crypto largest w)
    (hclock : ∀ last ∈ w.last, last ≤ call.now) (houtlives : Outlives largest call) :
    Protected digest crypto largest (w.verify digest crypto call) := by
  rcases w.table.verify_cases digest crypto call.input call.options call.store call.now with
    ⟨t', acceptedAt, expiresAt, heq, hverified, hdistinct, hexpiresAt, hkeeps, hclaimed⟩ | heq
  · have hw' : w.verify digest crypto call = ⟨t', w.accepted ++ call.input.signatures.map (AcceptedSignature.mk call.input),
          some call.now⟩ := by
      unfold ReplayProtection.verify
      rw [heq]
      rfl
    rw [hw']
    have hnew : ∀ signature ∈ call.input.signatures, ∃ signedAtMs : Int, dateParse signature.signedAt = some signedAtMs ∧
        InWindow call.options call.now signedAtMs ∧ signedAtMs + largest < expiresAt := by
      intro signature hmem
      obtain ⟨signedAtMs, hparse, hwindow⟩ := (hverified signature hmem).inWindow
      exact ⟨signedAtMs, hparse, hwindow, houtlives.2 signature hmem signedAtMs expiresAt hparse hwindow hexpiresAt⟩
    refine ⟨?_, ?_, ?_⟩
    · intro a ha
      rcases List.mem_append.mp ha with ha | ha
      · exact (h.guarded a ha).later hkeeps hclock rfl
      · obtain ⟨signature, hmem, rfl⟩ := List.mem_map.mp ha
        obtain ⟨signedAtMs, hparse, -, hlt⟩ := hnew signature hmem
        obtain ⟨-, hset⟩ := hclaimed _ (List.mem_map_of_mem hmem)
        exact ⟨signedAtMs, expiresAt, hparse, hlt, Or.inr ⟨_, hset, rfl⟩⟩
    · intro a ha
      rcases List.mem_append.mp ha with ha | ha
      · exact h.signed a ha
      · obtain ⟨signature, hmem, rfl⟩ := List.mem_map.mp ha
        exact (hverified signature hmem).signed
    · rw [List.map_append, List.nodup_append]
      refine ⟨h.once, ?_, ?_⟩
      · rw [List.map_map]
        refine List.Nodup.of_map (fun stamp : String × String × String => stamp.2.1) ?_
        rw [List.map_map]
        exact hdistinct
      · intro stamp hold stamp' hfresh hstamp
        obtain ⟨a, ha, rfl⟩ := List.mem_map.mp hold
        rw [List.map_map] at hfresh
        obtain ⟨signature, hmem, rfl⟩ := List.mem_map.mp hfresh
        obtain ⟨htenant, hvalue, hsignedAt⟩ : a.envelope.tenantId = call.input.tenantId ∧
            a.signature.value = signature.value ∧ a.signature.signedAt = signature.signedAt := by
          simpa only [AcceptedSignature.stamp, Function.comp, Prod.mk.injEq] using hstamp
        obtain ⟨signedAtMs, hparse, hwindow, -⟩ := hnew signature hmem
        rw [← hsignedAt] at hparse
        -- The signature lies in its window, so that its row stands in the way of the claim.
        obtain ⟨row, hget, hlive⟩ := (h.guarded a ha).live hclock houtlives.1 hparse hwindow
        rw [htenant, hvalue] at hget
        obtain ⟨hexpired, -⟩ := hclaimed _ (List.mem_map_of_mem hmem)
        exact absurd (hexpired row hget) (not_le.mpr hlive)
  · have hw' : w.verify digest crypto call = ⟨w.table, w.accepted, some call.now⟩ := by
      unfold ReplayProtection.verify
      rw [heq]
      rfl
    rw [hw']
    exact ⟨fun a ha => (h.guarded a ha).later (ReplayTable.Keeps.refl _ _) hclock rfl, h.signed, h.once⟩

theorem protected_of_reachable (h : (outliving digest crypto largest).Reachable w) : Protected digest crypto largest w := by
  refine h.invariant (Protected digest crypto largest) ?_ ?_
  · rintro w rfl
    exact protected_init
  · rintro w call w' hprotected ⟨⟨hclock, rfl⟩, houtlives⟩
    exact hprotected.verify hclock houtlives

end ReplayProtection

theorem signedAt_of_canonicalizeSignature {envelope envelope' : MemoryEnvelopeV2}
    {signature signature' : DeclaredSignature}
    (h : canonicalizeSignature envelope signature = canonicalizeSignature envelope' signature') :
    signature.signedAt = signature'.signedAt := by
  unfold canonicalizeSignature signatureMetadata at h
  simp only [Json.object.injEq, List.cons.injEq, Prod.mk.injEq, true_and, and_true] at h
  obtain ⟨-, hmetadata⟩ := h
  have hreverse := congrArg List.reverse hmetadata
  simp at hreverse
  exact hreverse.2.1

theorem stamp_of_identity (hbinding : Binding crypto) {a b : AcceptedSignature}
    (ha : ∃ bytes key, decodeBase64 a.signature.value = some bytes ∧
      crypto.verifySignature (canonicalizeSignature a.envelope a.signature) key bytes = true)
    (hb : ∃ bytes key, decodeBase64 b.signature.value = some bytes ∧
      crypto.verifySignature (canonicalizeSignature b.envelope b.signature) key bytes = true)
    (h : a.identity = b.identity) : a.stamp = b.stamp := by
  unfold AcceptedSignature.identity at h
  simp only [Prod.mk.injEq] at h
  obtain ⟨htenant, -, -, hvalue⟩ := h
  obtain ⟨bytes, key, hdecoded, hverified⟩ := ha
  obtain ⟨bytes', key', hdecoded', hverified'⟩ := hb
  rw [← hvalue] at hdecoded'
  obtain rfl := Option.some.inj (hdecoded.symm.trans hdecoded')
  have hsignedAt := signedAt_of_canonicalizeSignature (hbinding _ _ _ _ _ hverified hverified')
  unfold AcceptedSignature.stamp
  rw [htenant, hvalue, hsignedAt]

theorem stamp_of_declaration {a b : AcceptedSignature} (h : a.declaration = b.declaration) : a.stamp = b.stamp := by
  unfold AcceptedSignature.declaration at h
  simp only [Prod.mk.injEq] at h
  obtain ⟨htenant, -, hsignature⟩ := h
  unfold AcceptedSignature.stamp
  rw [htenant, hsignature]

/-- No signature is accepted twice in the runs in which every claim outlives the window of its
    signature. -/
theorem replay_protected (digest : String → String) (crypto : Ed25519 P K) (largest : Int) :
    ReplayProtected digest crypto largest where
  once := by
    intro w hreachable
    have hprotected := ReplayProtection.protected_of_reachable hreachable
    have honce := List.pairwise_map.mp hprotected.once
    exact List.pairwise_map.mpr (honce.imp (fun hne heq => hne (stamp_of_declaration heq)))
  bound := by
    intro hbinding w hreachable
    have hprotected := ReplayProtection.protected_of_reachable hreachable
    have honce := List.pairwise_map.mp hprotected.once
    refine List.pairwise_map.mpr (honce.imp_of_mem ?_)
    intro a b ha hb hne heq
    exact hne (stamp_of_identity hbinding (hprotected.signed a ha) (hprotected.signed b hb) heq)

/-- A service with one key; the signature is of the only document that it has ever signed. -/
def oneKey : Ed25519 Unit Unit where
  publicKey := some
  verifySignature := fun _ _ bytes => decide (bytes = List.replicate 64 0)

def signedLater : MemoryEnvelopeV2 where
  tenantId := "tenant"
  memoryId := "memory"
  evidence := []
  confidence := { score := none, method := "manual" }
  conflicts := []
  temporal := { asOf := "1970-01-01T00:00:00Z" }
  validity := { status := .fresh, checkedAt := "1970-01-01T00:00:00Z", policy := .manual }
  dependsOn := ["source"]
  signatures := [{
    signatureId := "signature"
    signerId := "signer"
    keyId := "key"
    value := String.ofList (List.replicate 86 'A' ++ ['=', '='])
    signedAt := "1970-01-01T00:03:20Z" }]

def presentedAt (now : ℚ) : VerifyCall Unit where
  input := signedLater
  options := { keys := fun _ => some () }
  store := { tenantId := "tenant" }
  now := now

/-- The envelope is accepted at 0 seconds, and again when its claim expires, at 300 seconds: its
    signature stays in its window up to 500 seconds. -/
theorem signed_later_is_replayed :
    ∃ w, (ReplayProtection.system id oneKey).Reachable w ∧
      ¬ (w.accepted.map AcceptedSignature.declaration).Nodup := by
  refine ⟨((({} : ReplayProtection).verify id oneKey (presentedAt 0)).verify id oneKey
    (presentedAt 300000)), ?_, by decide +kernel⟩
  refine .step (.step (.init rfl) (i := presentedAt 0) ⟨nofun, rfl⟩) (i := presentedAt 300000) ⟨?_, rfl⟩
  rintro last ⟨⟩
  exact (by decide : (0 : ℚ) ≤ 300000)

end Premise.Postgres
