import Premise.Js.Reordered
import Premise.Security.KeyRing
import Premise.Security.Proofs.SigningProofs

/-!
# Proofs: `KeyRing`

While an id is held, its material does not change: `addKey` compares. An id that was retired is free again; when
it comes back with the material that it had, no id is bound twice in a run, and what the ring encrypted is
decrypted whenever the ring holds its key.
-/

namespace Premise.Security

open Collections Control Js

theorem aesKey_eq_ok {value key : List UInt8} (h : aesKey value = .ok key) : key = value ∧ value.length = 32 := by
  unfold aesKey at h
  split_ifs at h with hlength
  · cases h
  · exact ⟨(Except.ok.inj h).symm, not_not.mp hlength⟩

theorem of_encryptPayload_ok {gcm : AesGcm} {payload : Payload} {keyId : String} {key iv : List UInt8}
    {options : AadOptions} {envelope : EncryptedPayload}
    (h : encryptPayload gcm payload keyId key options iv = .ok envelope) :
    ∃ aad text ciphertext authTag, identifier keyId "keyId" = .ok keyId ∧ key.length = 32 ∧
      aadBytes options = .ok aad ∧ iv.length = 12 ∧ payload.canonicalize = .ok text ∧
      gcm.encipher key iv aad (textBytes text) = some (ciphertext, authTag) ∧ authTag.length = 16 ∧
      envelope = .sealed keyId iv ciphertext authTag aad := by
  unfold encryptPayload at h
  obtain ⟨keyId', hid, h⟩ := of_bind_ok h
  rw [identifier_eq_ok hid] at h hid
  obtain ⟨key', hkey, h⟩ := of_bind_ok h
  obtain ⟨hkey', hlength⟩ := aesKey_eq_ok hkey
  rw [hkey'] at h
  obtain ⟨aad, haad, h⟩ := of_bind_ok h
  obtain ⟨hiv, h⟩ := of_check_ok h
  obtain ⟨text, htext, h⟩ := of_bind_ok h
  cases hsealed : gcm.encipher key iv aad (textBytes text) with
  | none => rw [hsealed] at h; cases h
  | some made =>
    obtain ⟨ciphertext, authTag⟩ := made
    rw [hsealed] at h
    dsimp only at h
    split_ifs at h with htag
    exact ⟨aad, text, ciphertext, authTag, hid, hlength, haad, not_not.mp hiv, htext, hsealed, not_not.mp htag,
      (Except.ok.inj h).symm⟩

theorem decryptPayload_of_encryptPayload {gcm : AesGcm} (hgcm : gcm.Inverts) {payload : Payload}
    (hpayload : payload.WellFormed) (hplain : payload.Plain) {keyId : String} {key iv : List UInt8}
    {options : AadOptions} {envelope : EncryptedPayload}
    (h : encryptPayload gcm payload keyId key options iv = .ok envelope) {expected : Option Binary}
    (hexpected : ∀ data ∈ expected, aadBytes options = .ok data.toBytes) :
    envelope.keyId = keyId ∧ encryptedPayload envelope = .ok envelope ∧
      decryptPayload gcm envelope key expected = .ok payload.json.sorted := by
  obtain ⟨aad, text, ciphertext, authTag, hid, hkey, haad, hiv, htext, hsealed, htag, rfl⟩ := of_encryptPayload_ok h
  have hread_iv := base64Decode_base64Text iv "encrypted payload iv" false
    (Or.inr (List.ne_nil_of_length_pos (by omega)))
  have hread_tag := base64Decode_base64Text authTag "encrypted payload authTag" false
    (Or.inr (List.ne_nil_of_length_pos (by omega)))
  have hread_text := base64Decode_base64Text ciphertext "encrypted payload ciphertext" true (Or.inl rfl)
  have hread_aad := base64Decode_base64Text aad "encrypted payload aad" true (Or.inl rfl)
  have hplaintext := hgcm key iv aad (textBytes text) ciphertext authTag hsealed
  have hvalue : parseJson (decodeBytes none ((textBytes text).map UInt8.toNat)) = some payload.json.sorted := by
    rw [Payload.canonicalize_of_plain hplain] at htext
    rw [toNat_textBytes, decodeBytes_utf8, ← Except.ok.inj htext, Payload.jsonText, String.toList_ofList]
    exact parseJson_stringify (Payload.wellFormed_document hpayload (Payload.document_of_plain hplain))
  have hmatch : expected.any (fun data => data.toBytes ≠ aad) = false := by
    cases expected with
    | none => rfl
    | some data =>
      have hdata := hexpected data rfl
      rw [haad] at hdata
      simp [Except.ok.inj hdata]
  have hsealedAad : (EncryptedPayload.sealed keyId iv ciphertext authTag aad).aad =
      if aad = [] then none else some (base64Text aad) := rfl
  have hchecked : encryptedPayload (.sealed keyId iv ciphertext authTag aad) =
      .ok (.sealed keyId iv ciphertext authTag aad) := by
    unfold encryptedPayload
    rw [hsealedAad]
    simp only [EncryptedPayload.sealed, hid, hread_iv, hread_tag, hread_text, ok_bind, hiv, htag]
    by_cases hempty : aad = []
    · rw [if_pos hempty]
      rfl
    · rw [if_neg hempty]
      simp only [Option.forM, hread_aad]
      rfl
  refine ⟨rfl, hchecked, ?_⟩
  have hkeyed : aesKey key = .ok key := if_neg (not_not.mpr hkey)
  have hopened : openedPayload gcm (.sealed keyId iv ciphertext authTag aad) key expected = some payload.json.sorted := by
    have hread : (EncryptedPayload.sealed keyId iv ciphertext authTag aad).aad.elim (some [])
        (fun aad => (base64Decode aad "encrypted payload aad" true).toOption) = some aad := by
      rw [hsealedAad]
      by_cases hempty : aad = []
      · rw [if_pos hempty, hempty]
        rfl
      · rw [if_neg hempty, Option.elim_some, hread_aad]
        rfl
    unfold openedPayload
    rw [hchecked, hkeyed]
    simp only [Except.toOption, Option.bind_eq_bind, Option.bind_some] at hread ⊢
    rw [hread]
    simp only [EncryptedPayload.sealed, Option.bind_some, hread_iv, hread_text, hread_tag, hiv, htag, hmatch]
    rw [hplaintext]
    exact hvalue
  unfold decryptPayload
  rw [hopened]

namespace KeyRing

theorem of_addKey_ok {ring ring' : KeyRing} {key : EncryptionKey} {activate : Bool}
    (h : ring.addKey key activate = .ok ring') :
    ring'.keys = ring.keys.set key.keyId key.key ∧
      ∀ material, ring.keys.get? key.keyId = some material → material = key.key := by
  unfold addKey at h
  obtain ⟨keyId, hid, h⟩ := of_bind_ok h
  rw [identifier_eq_ok hid] at h
  obtain ⟨material, hmaterial, h⟩ := of_bind_ok h
  rw [(aesKey_eq_ok hmaterial).1] at h
  obtain ⟨hreused, h⟩ := of_check_ok h
  refine ⟨(congrArg KeyRing.keys (Except.ok.inj h)).symm, fun existing hexisting => ?_⟩
  rw [hexisting, Option.any_some] at hreused
  simpa using hreused

theorem of_retire_ok {ring ring' : KeyRing} {keyId : String} (h : ring.retire keyId = .ok ring') :
    ring'.keys = ring.keys.erase keyId := by
  unfold retire at h
  obtain ⟨normalized, hid, h⟩ := of_bind_ok h
  rw [identifier_eq_ok hid] at h
  obtain ⟨-, h⟩ := of_check_ok h
  exact (congrArg KeyRing.keys (Except.ok.inj h)).symm

theorem get?_after {ring : KeyRing} {call : Call} {keyId : String} {material : List UInt8}
    (h : (ring.after call).keys.get? keyId = some material) :
    ring.keys.get? keyId = some material ∨
      ∃ key ∈ call.added, key.keyId = keyId ∧ key.key = material ∧ ring.keys.get? keyId = none := by
  have hadd : ∀ key activate, ((ring.addKey key activate).toOption.getD ring).keys.get? keyId = some material →
      ring.keys.get? keyId = some material ∨
        (key.keyId = keyId ∧ key.key = material ∧ ring.keys.get? keyId = none) := by
    intro key activate h
    cases hadded : ring.addKey key activate with
    | error err =>
      rw [hadded] at h
      exact .inl h
    | ok ring' =>
      obtain ⟨hkeys, hsame⟩ := of_addKey_ok hadded
      rw [hadded, Except.toOption, Option.getD_some, hkeys] at h
      by_cases hid : keyId = key.keyId
      · subst hid
        rw [OrderedMap.get?_set_self] at h
        cases hheld : ring.keys.get? key.keyId with
        | none => exact .inr ⟨rfl, Option.some.inj h, rfl⟩
        | some existing => exact .inl (by rw [hsame existing hheld]; exact h)
      · rw [OrderedMap.get?_set_of_ne _ _ hid] at h
        exact .inl h
  cases call with
  | addKey key activate => exact (hadd key activate h).imp id (fun hnew => ⟨key, rfl, hnew⟩)
  | rotate key => exact (hadd key true h).imp id (fun hnew => ⟨key, rfl, hnew⟩)
  | retire retired =>
    left
    change ((ring.retire retired).toOption.getD ring).keys.get? keyId = some material at h
    cases hretired : ring.retire retired with
    | error err =>
      rw [hretired] at h
      exact h
    | ok ring' =>
      rw [hretired, Except.toOption, Option.getD_some, of_retire_ok hretired] at h
      by_cases hid : keyId = retired
      · rw [hid, OrderedMap.get?_erase_self] at h
        cases h
      · rwa [OrderedMap.get?_erase_of_ne _ hid] at h
  | encrypt | decrypt => exact .inl h

theorem boundOnce_after {p : KeyRing × List (KeyRing × Call)} {call : Call}
    {p' : KeyRing × List (KeyRing × Call)} (h : BoundOnce p) (hrestores : Restores p call p') :
    BoundOnce (p.1.after call, p.2 ++ [(p.1, call)]) := by
  have hmem : ∀ ring ∈ moments (p.1.after call, p.2 ++ [(p.1, call)]), ring ∈ moments p ∨ ring = p.1.after call := by
    intro ring hring
    simpa [moments, or_assoc] using hring
  have hnew : ∀ ring ∈ moments p, ∀ keyId material material', ring.keys.get? keyId = some material →
      (p.1.after call).keys.get? keyId = some material' → material = material' := by
    intro ring hring keyId material material' hheld hafter
    obtain hbefore | ⟨key, hkey, rfl, rfl, hfree⟩ := get?_after hafter
    · exact h ring hring p.1 (List.mem_append_right _ (List.mem_singleton_self _)) _ _ _ hheld hbefore
    · obtain hlogged | hlast := List.mem_append.mp hring
      · obtain ⟨e, he, rfl⟩ := List.mem_map.mp hlogged
        exact hrestores.1 key hkey hfree e he material hheld
      · rw [List.mem_singleton.mp hlast, hfree] at hheld
        cases hheld
  intro ring hring ring' hring' keyId material material' hheld hheld'
  obtain hold | rfl := hmem ring hring
  · obtain hold' | rfl := hmem ring' hring'
    · exact h ring hold ring' hold' keyId material material' hheld hheld'
    · exact hnew ring hold keyId material material' hheld hheld'
  · obtain hold' | rfl := hmem ring' hring'
    · exact (hnew ring' hold' keyId material' material hheld' hheld).symm
    · exact Option.some.inj (hheld.symm.trans hheld')

theorem decrypts_of_boundOnce {gcm : AesGcm} (hgcm : gcm.Inverts) {p : KeyRing × List (KeyRing × Call)}
    (h : BoundOnce p)
    (hplain : ∀ ring payload options iv, (ring, Call.encrypt payload options iv) ∈ p.2 → payload.val.Plain) :
    Decrypts gcm p := by
  intro ring payload options iv envelope expected hlogged hencrypt hheld hexpected
  unfold encrypt at hencrypt
  split_ifs at hencrypt
  · cases hencrypt
  · cases hactive : ring.keys.get? ring.activeId with
    | none =>
      rw [hactive] at hencrypt
      cases hencrypt
    | some key =>
      rw [hactive] at hencrypt
      obtain ⟨hid, hchecked, hopened⟩ := decryptPayload_of_encryptPayload hgcm payload.property
        (hplain ring payload options iv hlogged) hencrypt hexpected
      rw [OrderedMap.has_eq_true, OrderedMap.mem_keys, hid] at hheld
      obtain ⟨key', hkey'⟩ := hheld
      have hring : ring ∈ moments p := List.mem_append_left _ (List.mem_map.mpr ⟨_, hlogged, rfl⟩)
      obtain rfl := h ring hring p.1 (List.mem_append_right _ (List.mem_singleton_self _)) _ _ _ hactive hkey'
      unfold decrypt
      rw [hchecked, ok_bind, hid, hkey']
      exact hopened

def openCipher : AesGcm where
  encipher := fun _ _ _ plaintext => some (plaintext, List.replicate 16 0)
  decipher := fun _ _ _ _ ciphertext => some ciphertext

theorem inverts_openCipher : openCipher.Inverts :=
  fun _ _ _ _ _ _ h => congrArg some (congrArg Prod.fst (Option.some.inj h)).symm

def firstRing : KeyRing := { keys := OrderedMap.set ∅ "a" (List.replicate 32 0), activeId := "a" }

end KeyRing

end Premise.Security
