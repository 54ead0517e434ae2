import Premise.Control.Except
import Premise.Security.Proofs.CanonicalProofs
import Premise.Security.Signing

/-!
# Proofs: signed payloads

Base64 and UTF-8 are read back, and a plain value is determined by its canonical text, up to the order of its
properties. Payloads of one kind are therefore told apart by their signed bytes; payloads of two kinds are not
when the one is the spelling of the other.
-/

namespace Premise.Security

open Collections Control Js

/-! ## Base64 -/

theorem base64Value_base64Char {n : Nat} (h : n < 64) : Protocol.base64Value (base64Char n) = some n := by
  have hall : ∀ n : Fin 64, Protocol.base64Value (base64Char n) = some n.val := by decide
  exact hall ⟨n, h⟩

theorem inAlphabet_base64Char {n : Nat} (h : n < 64) : inAlphabet (base64Char n) = true := by
  have hall : ∀ n : Fin 64, inAlphabet (base64Char n) = true := by decide
  exact hall ⟨n, h⟩

theorem base64Char_ne {n : Nat} (h : n < 64) : base64Char n ≠ '=' := by
  rintro heq
  have halphabet := inAlphabet_base64Char h
  rw [heq] at halphabet
  exact absurd halphabet (by decide)

theorem decodeGroups_base64Encode (l : List UInt8) : Protocol.decodeGroups (base64Encode l) = some (l.map UInt8.toNat) := by
  induction l using base64Encode.induct with
  | case1 => rfl
  | case2 a =>
    have ha := a.toNat_lt
    simp only [base64Encode, Protocol.decodeGroups, base64Value_base64Char (show a.toNat / 4 < 64 by omega),
      base64Value_base64Char (show a.toNat % 4 * 16 < 64 by omega), Option.bind_eq_bind, Option.bind_some]
    rw [if_pos (by omega), show a.toNat / 4 * 4 + a.toNat % 4 * 16 / 16 = a.toNat by omega]
    rfl
  | case3 a b =>
    have ha := a.toNat_lt
    have hb := b.toNat_lt
    have hne := base64Char_ne (show b.toNat % 16 * 4 < 64 by omega)
    rw [base64Encode, Protocol.decodeGroups.eq_3 _ _ _ hne, base64Value_base64Char (show a.toNat / 4 < 64 by omega),
      base64Value_base64Char (show a.toNat % 4 * 16 + b.toNat / 16 < 64 by omega),
      base64Value_base64Char (show b.toNat % 16 * 4 < 64 by omega)]
    simp only [Option.bind_eq_bind, Option.bind_some]
    rw [if_pos (by omega),
      show a.toNat / 4 * 4 + (a.toNat % 4 * 16 + b.toNat / 16) / 16 = a.toNat by omega,
      show (a.toNat % 4 * 16 + b.toNat / 16) % 16 * 16 + b.toNat % 16 * 4 / 4 = b.toNat by omega]
    rfl
  | case4 a b c rest ih =>
    have ha := a.toNat_lt
    have hb := b.toNat_lt
    have hc := c.toNat_lt
    have hne := base64Char_ne (show c.toNat % 64 < 64 by omega)
    rw [base64Encode, Protocol.decodeGroups.eq_4 _ _ _ _ _ (fun _ h _ => hne h) (fun h _ => hne h), ih,
      base64Value_base64Char (show a.toNat / 4 < 64 by omega),
      base64Value_base64Char (show a.toNat % 4 * 16 + b.toNat / 16 < 64 by omega),
      base64Value_base64Char (show b.toNat % 16 * 4 + c.toNat / 64 < 64 by omega),
      base64Value_base64Char (show c.toNat % 64 < 64 by omega)]
    simp only [Option.bind_eq_bind, Option.bind_some]
    rw [show a.toNat / 4 * 4 + (a.toNat % 4 * 16 + b.toNat / 16) / 16 = a.toNat by omega,
      show (a.toNat % 4 * 16 + b.toNat / 16) % 16 * 16 + (b.toNat % 16 * 4 + c.toNat / 64) / 4 = b.toNat by omega,
      show (b.toNat % 16 * 4 + c.toNat / 64) % 4 * 64 + c.toNat % 64 = c.toNat by omega]
    rfl

theorem length_base64Encode (l : List UInt8) : (base64Encode l).length % 4 = 0 := by
  induction l using base64Encode.induct with
  | case1 => rfl
  | case2 | case3 => simp [base64Encode]
  | case4 a b c rest ih =>
    simp only [base64Encode, List.length_cons]
    omega

theorem dropWhile_base64Encode (l : List UInt8) : ∃ n ≤ 2,
    (base64Encode l).dropWhile inAlphabet = List.replicate n '=' := by
  induction l using base64Encode.induct with
  | case1 => exact ⟨0, Nat.zero_le _, rfl⟩
  | case2 a =>
    have ha := a.toNat_lt
    refine ⟨2, le_rfl, ?_⟩
    rw [base64Encode, List.dropWhile_cons_of_pos (inAlphabet_base64Char (by omega)),
      List.dropWhile_cons_of_pos (inAlphabet_base64Char (by omega))]
    rfl
  | case3 a b =>
    have ha := a.toNat_lt
    have hb := b.toNat_lt
    refine ⟨1, Nat.le_succ _, ?_⟩
    rw [base64Encode, List.dropWhile_cons_of_pos (inAlphabet_base64Char (by omega)),
      List.dropWhile_cons_of_pos (inAlphabet_base64Char (by omega)),
      List.dropWhile_cons_of_pos (inAlphabet_base64Char (by omega))]
    rfl
  | case4 a b c rest ih =>
    have ha := a.toNat_lt
    have hb := b.toNat_lt
    have hc := c.toNat_lt
    obtain ⟨n, hn, hdrop⟩ := ih
    refine ⟨n, hn, ?_⟩
    rw [base64Encode, List.dropWhile_cons_of_pos (inAlphabet_base64Char (by omega)),
      List.dropWhile_cons_of_pos (inAlphabet_base64Char (by omega)),
      List.dropWhile_cons_of_pos (inAlphabet_base64Char (by omega)),
      List.dropWhile_cons_of_pos (inAlphabet_base64Char (by omega)), hdrop]

theorem base64Decode_base64Text (l : List UInt8) (label : String) (allowEmpty : Bool)
    (h : allowEmpty = true ∨ l ≠ []) : base64Decode (base64Text l) label allowEmpty = .ok l := by
  obtain ⟨n, hn, hdrop⟩ := dropWhile_base64Encode l
  have hchars : (base64Text l).toList = base64Encode l := String.toList_ofList
  have hempty : (!allowEmpty && (base64Text l).isEmpty) = false := by
    rcases h with rfl | hne
    · rfl
    · have hencoded : base64Encode l ≠ [] := by
        intro hnil
        have hdecoded := decodeGroups_base64Encode l
        rw [hnil] at hdecoded
        exact hne (List.map_eq_nil_iff.mp (Option.some.inj hdecoded).symm)
      have hfalse : (base64Text l).isEmpty = false := by
        rw [String.isEmpty_eq_false_iff]
        rintro htext
        rw [htext] at hchars
        exact hencoded hchars.symm
      rw [hfalse, Bool.and_false]
  have hbase : isBase64 (base64Text l) = true := by
    unfold isBase64
    rw [hchars, hdrop]
    simp [hn]
  have hmod : (base64Text l).length % 4 = 0 := by rw [← String.length_toList, hchars, length_base64Encode]
  unfold base64Decode
  rw [hempty, hbase, hmod, hchars, decodeGroups_base64Encode]
  simp [Function.comp_def]

theorem lt_of_mem_utf8 {l : List Char} {b : Nat} (h : b ∈ utf8 l) : b < 256 := by
  obtain ⟨c, -, hb⟩ := List.mem_flatMap.mp h
  have hrange := char_range c
  unfold utf8Bytes at hb
  split_ifs at hb
  all_goals
    simp only [List.mem_cons, List.not_mem_nil, or_false] at hb
    omega

theorem toNat_textBytes (s : String) : (textBytes s).map UInt8.toNat = utf8 s.toList := by
  unfold textBytes
  rw [List.map_map]
  refine (List.map_congr_left (fun b hb => ?_)).trans (List.map_id _)
  exact UInt8.toNat_ofNat_of_lt (lt_of_mem_utf8 hb)

theorem textBytes_injective : Function.Injective textBytes := by
  intro s t h
  have hutf8 := congrArg (List.map UInt8.toNat) h
  rw [toNat_textBytes, toNat_textBytes] at hutf8
  have hchars := congrArg (decodeBytes none) hutf8
  rw [decodeBytes_utf8, decodeBytes_utf8] at hchars
  exact String.toList_injective hchars

namespace Payload

theorem inKeyOrder_of_ok {α β : Type} (make : String → α → β) (fields : List (String × α)) :
    inKeyOrder make (fields.map (fun p => (p.1, Except.ok p.2))) =
      .ok ((JsValue.sortByKey fields).map (fun p => make p.1 p.2)) := by
  unfold inKeyOrder
  rw [sortByKey_map, List.mapM_map]
  exact mapM_of_ok fun p _ => rfl

mutual

theorem document_of_plain {v : Payload} (h : v.Plain) : v.document = .ok v.json.sorted := by
  match v with
  | .null | .boolean _ | .number _ | .string _ => rfl
  | .array items =>
    rw [document, documents_of_plain h]
    rfl
  | .object true properties =>
    rw [document, fieldDocuments_of_plain h]
    rw [inKeyOrder_of_ok]
    exact congrArg (fun l => Except.ok (Json.object l)) (List.map_id _)

theorem documents_of_plain {items : List Payload} (h : PlainItems items) :
    documents items = .ok (Json.sortedItems (jsonItems items)) := by
  match items with
  | [] => rfl
  | v :: items =>
    rw [documents, document_of_plain h.1, documents_of_plain h.2]
    rfl

theorem fieldDocuments_of_plain {properties : List (String × Payload)} (h : PlainProperties properties) :
    fieldDocuments properties =
      (Json.sortedFields (jsonProperties properties)).map (fun p => (p.1, Except.ok p.2)) := by
  match properties with
  | [] => rfl
  | (key, v) :: properties =>
    rw [fieldDocuments, document_of_plain h.1, fieldDocuments_of_plain h.2]
    rfl

end

theorem canonicalize_of_plain {v : Payload} (h : v.Plain) : v.canonicalize = .ok v.jsonText := by
  rw [canonicalize, canonicalFragment_eq, document_of_plain h]
  rfl

end Payload

namespace SignedPayload

theorem securityPayloadBytes_value {v : Payload} (hv : v.Plain) (hne : ∀ s, v ≠ .string s) :
    securityPayloadBytes v = .ok (textBytes v.jsonText) := by
  have hcanonical : securityPayloadBytes v = v.canonicalize.map textBytes := by
    cases v with
    | string s => exact absurd rfl (hne s)
    | bytes content => exact hv.elim
    | _ => rfl
  rw [hcanonical, Payload.canonicalize_of_plain hv]
  rfl

def message : SignedPayload → List UInt8
  | .text s => textBytes s
  | .bytes content => content
  | .value v _ _ _ => textBytes v.jsonText

theorem securityPayloadBytes_payload (p : SignedPayload) : securityPayloadBytes p.payload = .ok p.message := by
  cases p with
  | text | bytes => rfl
  | value v wellFormed plain ne_string => exact securityPayloadBytes_value plain ne_string

theorem same_of_jsonText {v w : Payload} (hv : v.WellFormed) (hw : w.WellFormed) (plain : v.Plain)
    (plain' : w.Plain) (h : v.jsonText = w.jsonText) : v.json.Same w.json := by
  have hdocument := Payload.document_eq_of_canonicalize_eq hv hw (Payload.canonicalize_of_plain plain)
    (h ▸ Payload.canonicalize_of_plain plain')
  rw [Payload.document_of_plain plain, Payload.document_of_plain plain'] at hdocument
  exact Except.ok.inj hdocument

/-- Payloads with the same bytes are the same, or the one is the spelling of the other. -/
theorem same_of_message {p q : SignedPayload} (h : p.message = q.message) (hspells : ¬ p.Spells q) : p.Same q := by
  cases p with
  | text s =>
    cases q with
    | text t => exact textBytes_injective h
    | bytes content => exact absurd h.symm hspells
    | value w _ _ _ => exact absurd (textBytes_injective h) hspells
  | bytes content =>
    cases q with
    | text t => exact absurd h hspells
    | bytes other => exact h
    | value w _ _ _ => exact absurd h hspells
  | value v wellFormed plain _ =>
    cases q with
    | text t => exact absurd (textBytes_injective h).symm hspells
    | bytes other => exact absurd h.symm hspells
    | value w wellFormed' plain' _ =>
      exact same_of_jsonText wellFormed wellFormed' plain plain' (textBytes_injective h)

theorem message_of_spells {p q : SignedPayload} (h : p.Spells q) : p.message = q.message ∧ ¬ p.Same q := by
  cases p with
  | text s =>
    cases q with
    | text t => exact h.elim
    | bytes content => exact ⟨Eq.symm h, id⟩
    | value w _ _ _ => exact ⟨congrArg textBytes h, id⟩
  | bytes content =>
    cases q with
    | text t => exact ⟨h, id⟩
    | bytes other => exact h.elim
    | value w _ _ _ => exact ⟨h, id⟩
  | value v _ _ _ =>
    cases q with
    | text t => exact ⟨congrArg textBytes (Eq.symm h), id⟩
    | bytes other => exact ⟨Eq.symm h, id⟩
    | value w _ _ _ => exact h.elim

end SignedPayload

section Signatures

variable {K S P : Type} (crypto : Ed25519 K S P)

theorem message_of_verifyEd25519 {p q : SignedPayload} {privateKey publicKey : K}
    (hbinds : crypto.Binds privateKey publicKey p.message q.message) {signature : String}
    (hsign : signEd25519 crypto p.payload (some privateKey) = .ok signature)
    (hverify : verifyEd25519 crypto q.payload signature (some publicKey) = true) : q.message = p.message := by
  simp only [signEd25519, p.securityPayloadBytes_payload, ok_bind] at hsign
  cases hkey : crypto.privateKey privateKey with
  | none => simp [hkey] at hsign
  | some key =>
    cases hmade : crypto.sign key p.message with
    | none => simp [hkey, hmade] at hsign
    | some made =>
      simp only [hkey, hmade, Except.ok.injEq] at hsign
      obtain rfl := hsign
      unfold verifyEd25519 at hverify
      rw [q.securityPayloadBytes_payload] at hverify
      by_cases hne : made = []
      · subst hne
        exact absurd hverify (by simp [base64Decode, base64Text, base64Encode, invalid])
      · rw [base64Decode_base64Text made _ false (Or.inr hne)] at hverify
        cases hkey' : crypto.publicKey publicKey with
        | none => simp [hkey'] at hverify
        | some key' =>
          cases hverified : crypto.verify key' q.message made with
          | none => simp [hkey', hverified] at hverify
          | some result =>
            simp only [hkey', hverified, Option.getD_some] at hverify
            split_ifs at hverify
            exact hbinds key key' made hkey hkey' hmade (hverify ▸ hverified)

/-- A scheme with one key, in which a short message is its own signature. -/
def paddedScheme : Ed25519 Unit Unit Unit where
  privateKey := some
  publicKey := some
  sign := fun _ message => some (message ++ List.replicate (64 - message.length) 0)
  verify := fun _ message signature => some (decide (signature = message ++ List.replicate (64 - message.length) 0))

end Signatures

end Premise.Security
