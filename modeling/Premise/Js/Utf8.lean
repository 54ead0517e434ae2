import Mathlib

/-!
# UTF-8

The bytes of a text, and what `TextDecoder` makes of bytes: every sequence that is not one of UTF-8
becomes a replacement character, also one that the end of the bytes cuts off.
-/

namespace Premise.Js

def utf8Bytes (n : Nat) : List Nat :=
  if n < 0x80 then [n]
  else if n < 0x800 then [0xC0 + n / 64, 0x80 + n % 64]
  else if n < 0x10000 then [0xE0 + n / 4096, 0x80 + n / 64 % 64, 0x80 + n % 64]
  else [0xF0 + n / 262144, 0x80 + n / 4096 % 64, 0x80 + n / 64 % 64, 0x80 + n % 64]

def utf8 (l : List Char) : List Nat := l.flatMap (fun c => utf8Bytes c.toNat)

@[simp] theorem utf8_nil : utf8 [] = [] := rfl

@[simp] theorem utf8_cons (c : Char) (l : List Char) : utf8 (c :: l) = utf8Bytes c.toNat ++ utf8 l :=
  List.flatMap_cons

@[simp] theorem utf8_append (l m : List Char) : utf8 (l ++ m) = utf8 l ++ utf8 m :=
  List.flatMap_append

theorem utf8Bytes_ne_nil (n : Nat) : utf8Bytes n ≠ [] := by
  unfold utf8Bytes
  split_ifs <;> exact List.cons_ne_nil _ _

theorem mem_utf8Bytes_ascii {b n : Nat} (hb : b < 0x80) : b ∈ utf8Bytes n ↔ n = b := by
  unfold utf8Bytes
  split_ifs
  · rw [List.mem_singleton]
    exact eq_comm
  · simp only [List.mem_cons, List.not_mem_nil, or_false]
    omega
  · simp only [List.mem_cons, List.not_mem_nil, or_false]
    omega
  · simp only [List.mem_cons, List.not_mem_nil, or_false]
    omega

theorem newline_mem_utf8 {l : List Char} : 0x0A ∈ utf8 l ↔ '\n' ∈ l := by
  unfold utf8
  rw [List.mem_flatMap]
  constructor
  · rintro ⟨c, hc, hmem⟩
    have hn := (mem_utf8Bytes_ascii (by decide)).mp hmem
    have hnewline : c = '\n' := by
      rw [← Char.ofNat_toNat c, hn]
    exact hnewline ▸ hc
  · intro hmem
    exact ⟨'\n', hmem, (mem_utf8Bytes_ascii (by decide)).mpr rfl⟩

/-! ## Decoding -/

/-- A sequence that has begun: the code point so far, the bytes still needed, the range of the next
one. -/
structure Sequence where
  codePoint : Nat
  needed : Nat
  lower : Nat
  upper : Nat

def replacement : Char := Char.ofNat 0xFFFD

/-- A byte at the start of a sequence: what is emitted, and the sequence that it begins. -/
def firstByte (b : Nat) : List Char × Option Sequence :=
  if b < 0x80 then ([Char.ofNat b], none)
  else if 0xC2 ≤ b ∧ b ≤ 0xDF then ([], some ⟨b % 32, 1, 0x80, 0xBF⟩)
  else if 0xE0 ≤ b ∧ b ≤ 0xEF then
    ([], some ⟨b % 16, 2, if b = 0xE0 then 0xA0 else 0x80, if b = 0xED then 0x9F else 0xBF⟩)
  else if 0xF0 ≤ b ∧ b ≤ 0xF4 then
    ([], some ⟨b % 8, 3, if b = 0xF0 then 0x90 else 0x80, if b = 0xF4 then 0x8F else 0xBF⟩)
  else ([replacement], none)

/-- One byte; one that does not continue a sequence is looked at again as a first one. -/
def decodeByte : Option Sequence → Nat → List Char × Option Sequence
  | none, b => firstByte b
  | some s, b =>
    if s.lower ≤ b ∧ b ≤ s.upper then
      if s.needed = 1 then ([Char.ofNat (s.codePoint * 64 + b % 64)], none)
      else ([], some ⟨s.codePoint * 64 + b % 64, s.needed - 1, 0x80, 0xBF⟩)
    else (replacement :: (firstByte b).1, (firstByte b).2)

def decodeBytes : Option Sequence → List Nat → List Char
  | none, [] => []
  | some _, [] => [replacement]
  | state, b :: bytes => (decodeByte state b).1 ++ decodeBytes (decodeByte state b).2 bytes

/-- `new TextDecoder().decode(bytes)`: a byte order mark at the start is dropped. -/
def decode (bytes : List Nat) : List Char :=
  match decodeBytes none bytes with
  | [] => []
  | c :: l => if c.toNat = 0xFEFF then l else c :: l

theorem decodeBytes_cons (state : Option Sequence) (b : Nat) (bytes : List Nat) : decodeBytes state (b :: bytes) =
      (decodeByte state b).1 ++ decodeBytes (decodeByte state b).2 bytes := by
  cases state <;> rfl

theorem char_range (c : Char) : c.toNat < 0xD800 ∨ (0xDFFF < c.toNat ∧ c.toNat < 0x110000) := by
  have h := c.valid
  exact h

theorem decodeBytes_utf8Bytes (c : Char) (bytes : List Nat) :
    decodeBytes none (utf8Bytes c.toNat ++ bytes) = c :: decodeBytes none bytes := by
  have hrange := char_range c
  have hc : Char.ofNat c.toNat = c := Char.ofNat_toNat c
  generalize c.toNat = n at hrange hc
  subst hc
  unfold utf8Bytes
  split_ifs with h1 h2 h3
  · rw [List.singleton_append, decodeBytes_cons]
    simp only [decodeByte, firstByte, if_pos h1, List.singleton_append]
  · simp only [List.cons_append, List.nil_append, decodeBytes_cons, decodeByte, firstByte]
    rw [if_neg (by omega), if_pos (by omega)]
    dsimp only
    rw [if_pos (by omega), if_pos rfl]
    rw [show (192 + n / 64) % 32 * 64 + (128 + n % 64) % 64 = n by omega]
    rfl
  · simp only [List.cons_append, List.nil_append, decodeBytes_cons, decodeByte, firstByte]
    rw [if_neg (by omega), if_neg (by omega), if_pos (by omega)]
    dsimp only
    rw [if_pos (by split_ifs <;> omega), if_neg (by omega)]
    dsimp only
    rw [if_pos (by omega), if_pos rfl]
    rw [show ((224 + n / 4096) % 16 * 64 + (128 + n / 64 % 64) % 64) * 64 + (128 + n % 64) % 64 = n by omega]
    rfl
  · simp only [List.cons_append, List.nil_append, decodeBytes_cons, decodeByte, firstByte]
    rw [if_neg (by omega), if_neg (by omega), if_neg (by omega), if_pos (by omega)]
    dsimp only
    rw [if_pos (by split_ifs <;> omega), if_neg (by omega)]
    dsimp only
    rw [if_pos (by omega), if_neg (by omega)]
    dsimp only
    rw [if_pos (by omega), if_pos rfl]
    rw [show (((240 + n / 262144) % 8 * 64 + (128 + n / 4096 % 64) % 64) * 64
      + (128 + n / 64 % 64) % 64) * 64 + (128 + n % 64) % 64 = n by omega]
    rfl

theorem decodeBytes_take (c : Char) {k : Nat} (hpos : 0 < k)
    (hlt : k < (utf8Bytes c.toNat).length) :
    decodeBytes none ((utf8Bytes c.toNat).take k) = [replacement] := by
  have hrange := char_range c
  generalize c.toNat = n at hrange hlt
  unfold utf8Bytes at hlt ⊢
  split_ifs at hlt ⊢ with h1 h2 h3
  · simp only [List.length_singleton] at hlt
    omega
  · simp only [List.length_cons, List.length_nil] at hlt
    obtain rfl : k = 1 := by omega
    simp only [List.take, decodeBytes_cons, decodeByte, firstByte]
    rw [if_neg (by omega), if_pos (by omega)]
    rfl
  · simp only [List.length_cons, List.length_nil] at hlt
    obtain rfl | rfl : k = 1 ∨ k = 2 := by omega
    all_goals
      simp only [List.take, decodeBytes_cons, decodeByte, firstByte]
      rw [if_neg (by omega), if_neg (by omega), if_pos (by omega)]
    · rfl
    · dsimp only
      rw [if_pos (by split_ifs <;> omega), if_neg (by omega)]
      rfl
  · simp only [List.length_cons, List.length_nil] at hlt
    obtain rfl | rfl | rfl : k = 1 ∨ k = 2 ∨ k = 3 := by omega
    all_goals
      simp only [List.take, decodeBytes_cons, decodeByte, firstByte]
      rw [if_neg (by omega), if_neg (by omega), if_neg (by omega), if_pos (by omega)]
    · rfl
    · dsimp only
      rw [if_pos (by split_ifs <;> omega), if_neg (by omega)]
      rfl
    · dsimp only
      rw [if_pos (by split_ifs <;> omega), if_neg (by omega)]
      dsimp only
      rw [if_pos (by omega), if_neg (by omega)]
      rfl

theorem decodeBytes_utf8 (l : List Char) : decodeBytes none (utf8 l) = l := by
  induction l with
  | nil => rfl
  | cons c l ih => rw [utf8_cons, decodeBytes_utf8Bytes, ih]

theorem decodeBytes_utf8_take (l : List Char) (k : Nat) : ∃ p tail, p <+: l ∧
    decodeBytes none ((utf8 l).take k) = p ++ tail ∧ (tail = [] ∨ tail = [replacement]) ∧
    (k < (utf8 l).length → p.length < l.length) := by
  induction l generalizing k with
  | nil => exact ⟨[], [], List.nil_prefix, by rw [utf8_nil, List.take_nil]; rfl, Or.inl rfl, nofun⟩
  | cons c l ih =>
    rw [utf8_cons]
    by_cases hwhole : (utf8Bytes c.toNat).length ≤ k
    · obtain ⟨p, tail, hp, heq, htail, hlt⟩ := ih (k - (utf8Bytes c.toNat).length)
      refine ⟨c :: p, tail, List.cons_prefix_cons.mpr ⟨rfl, hp⟩, ?_, htail, fun hk => ?_⟩
      · rw [List.take_append, List.take_of_length_le hwhole, decodeBytes_utf8Bytes, heq]
        rfl
      · rw [List.length_append] at hk
        have hshort := hlt (by omega)
        rw [List.length_cons, List.length_cons]
        omega
    · rw [List.take_append_of_le_length (by omega)]
      rcases Nat.eq_zero_or_pos k with rfl | hpos
      · exact ⟨[], [], List.nil_prefix, rfl, Or.inl rfl, fun _ => Nat.succ_pos _⟩
      · exact ⟨[], [replacement], List.nil_prefix, decodeBytes_take c hpos (by omega), Or.inr rfl, fun _ => Nat.succ_pos _⟩

variable {state : Option Sequence} {bytes : List Nat}

theorem lower_decodeByte (b : Nat) (h : ∀ s ∈ state, 0x80 ≤ s.lower) : ∀ s ∈ (decodeByte state b).2, 0x80 ≤ s.lower := by
  have hfirst : ∀ s ∈ (firstByte b).2, 0x80 ≤ s.lower := by
    intro s hs
    unfold firstByte at hs
    split_ifs at hs
    all_goals first
      | cases hs; done
      | obtain rfl := Option.some.inj hs
        dsimp only
        omega
  cases state with
  | none => exact hfirst
  | some s =>
    simp only [decodeByte]
    split_ifs
    · exact nofun
    · intro s' hs'
      cases hs'
      exact le_rfl
    · exact hfirst

theorem decodeBytes_ascii (state : Option Sequence) (h : ∀ s ∈ state, 0x80 ≤ s.lower)
    (bytes : List Nat) {b : Nat} (hb : b < 0x80) (rest : List Nat) :
    decodeBytes state (bytes ++ b :: rest) = decodeBytes state bytes ++ decodeBytes none (b :: rest) := by
  induction bytes generalizing state with
  | nil =>
    cases state with
    | none => rfl
    | some s =>
      have hlower := h s rfl
      rw [List.nil_append, decodeBytes_cons, decodeByte, if_neg (by omega), decodeBytes_cons]
      rfl
  | cons c bytes ih =>
    rw [List.cons_append, decodeBytes_cons, decodeBytes_cons, ih _ (lower_decodeByte c h), List.append_assoc]

def Sequence.Long (s : Sequence) : Prop :=
  match s.needed with
  | 0 => False
  | 1 => 2 ≤ s.codePoint
  | 2 => 1 ≤ s.codePoint ∨ 0xA0 ≤ s.lower ∧ s.upper ≤ 0xBF
  | 3 => 1 ≤ s.codePoint ∨ 0x90 ≤ s.lower ∧ s.upper ≤ 0xBF
  | _ => False

theorem long_firstByte (b : Nat) : ∀ s ∈ (firstByte b).2, s.Long := by
  intro s hs
  unfold firstByte at hs
  split_ifs at hs with h1 h2 h3 h4
  all_goals first
    | cases hs; done
    | obtain rfl := Option.some.inj hs
      simp only [Sequence.Long]
      omega

theorem newline_mem_firstByte {b : Nat} (h : '\n' ∈ (firstByte b).1) : b = 0x0A := by
  unfold firstByte at h
  split_ifs at h with hascii
  · have hb : ∀ n < 0x80, '\n' = Char.ofNat n → n = 0x0A := by decide
    exact hb b hascii (List.mem_singleton.mp h)
  all_goals simp [replacement] at h

theorem newline_mem_decodeByte (hstate : ∀ s ∈ state, s.Long) {b : Nat} (h : '\n' ∈ (decodeByte state b).1) : b = 0x0A := by
  cases state with
  | none => exact newline_mem_firstByte h
  | some s =>
    have hlong := hstate s rfl
    simp only [decodeByte] at h
    split_ifs at h with hrange hneeded
    · simp only [Sequence.Long, hneeded] at hlong
      have heq : Char.ofNat (s.codePoint * 64 + b % 64) = '\n' := (List.mem_singleton.mp h).symm
      have hn : (Char.ofNat (s.codePoint * 64 + b % 64)).toNat = 10 := by rw [heq]; rfl
      unfold Char.ofNat at hn
      split_ifs at hn
      · have hvalue : s.codePoint * 64 + b % 64 = 10 := hn
        omega
      · exact absurd hn (by decide)
    · cases h
    · rcases List.mem_cons.mp h with hreplacement | hfirst
      · exact absurd hreplacement (by decide)
      · exact newline_mem_firstByte hfirst

theorem long_decodeByte (hstate : ∀ s ∈ state, s.Long) (b : Nat) : ∀ s ∈ (decodeByte state b).2, s.Long := by
  cases state with
  | none => exact long_firstByte b
  | some s =>
    have hlong := hstate s rfl
    simp only [decodeByte]
    split_ifs with hrange hneeded
    · exact nofun
    · intro s' hs'
      cases hs'
      obtain ⟨codePoint, needed, lower, upper⟩ := s
      match needed, hlong with
      | 0, hlong => exact hlong.elim
      | 1, _ => exact absurd rfl hneeded
      | 2, hlong =>
        simp only [Sequence.Long] at hlong hrange ⊢
        omega
      | 3, hlong =>
        simp only [Sequence.Long] at hlong hrange ⊢
        omega
      | n + 4, hlong => exact hlong.elim
    · exact long_firstByte b

theorem newline_mem_decodeBytes (hstate : ∀ s ∈ state, s.Long) (h : '\n' ∈ decodeBytes state bytes) : 0x0A ∈ bytes := by
  induction bytes generalizing state with
  | nil =>
    cases state with
    | none => cases h
    | some s => exact absurd (List.mem_singleton.mp h) (by decide)
  | cons b bytes ih =>
    rw [decodeBytes_cons] at h
    rcases List.mem_append.mp h with hbyte | hrest
    · rw [newline_mem_decodeByte hstate hbyte]
      exact List.mem_cons_self
    · exact List.mem_cons_of_mem _ (ih (long_decodeByte hstate b) hrest)

theorem decodeBytes_ne_nil (state : Option Sequence) (h : bytes ≠ []) : decodeBytes state bytes ≠ [] := by
  have hpending : ∀ (bytes : List Nat) (s : Sequence), decodeBytes (some s) bytes ≠ [] := by
    intro bytes
    induction bytes with
    | nil => exact fun s => List.cons_ne_nil _ _
    | cons b bytes ih =>
      intro s
      rw [decodeBytes_cons]
      simp only [decodeByte]
      split_ifs
      · exact List.cons_ne_nil _ _
      · exact ih _
      · exact List.cons_ne_nil _ _
  cases state with
  | some s => exact hpending bytes s
  | none =>
    obtain ⟨b, bytes, rfl⟩ := List.exists_cons_of_ne_nil h
    rw [decodeBytes_cons]
    simp only [decodeByte, firstByte]
    split_ifs
    all_goals first
      | exact List.cons_ne_nil _ _
      | exact hpending bytes _

theorem getLast?_of_decodeBytes (h : (decodeBytes none bytes).getLast? = some '\n') : bytes.getLast? = some 0x0A := by
  have hmem := newline_mem_decodeBytes (fun s hs => absurd hs (Option.not_mem_none s)) (List.mem_of_getLast? h)
  obtain ⟨reversed, l, heq, htail⟩ := List.eq_append_cons_of_mem (List.mem_reverse.mpr hmem)
  have hbytes : bytes = l.reverse ++ 0x0A :: reversed.reverse := by
    rw [← List.reverse_reverse bytes, heq]
    simp
  subst hbytes
  rw [decodeBytes_ascii none (fun s hs => absurd hs (Option.not_mem_none s)) _ (by omega), decodeBytes_cons] at h
  cases reversed with
  | nil => simp
  | cons b reversed =>
    -- what follows the last newline would be decoded to something else
    exfalso
    have hne : decodeBytes none (b :: reversed).reverse ≠ [] := decodeBytes_ne_nil none (by simp)
    have hlast : (decodeBytes none (b :: reversed).reverse).getLast? = some '\n' := by
      rw [List.getLast?_append_of_ne_nil _ (by simp [decodeByte, firstByte]),
        List.getLast?_append_of_ne_nil _ (by simpa [decodeByte, firstByte] using hne)] at h
      exact h
    have hnewline := newline_mem_decodeBytes (fun s hs => absurd hs (Option.not_mem_none s)) (List.mem_of_getLast? hlast)
    exact htail (List.mem_reverse.mp hnewline)

theorem decodeBytes_append (h : bytes = [] ∨ bytes.getLast? = some 0x0A) (rest : List Nat) :
    decodeBytes none (bytes ++ rest) = decodeBytes none bytes ++ decodeBytes none rest := by
  rcases h with rfl | h
  · rfl
  · obtain ⟨init, rfl⟩ : ∃ init, bytes = init ++ [0x0A] :=
      ⟨bytes.dropLast, (List.dropLast_append_getLast? _ h).symm⟩
    rw [List.append_assoc, List.singleton_append, decodeBytes_ascii none (fun s hs => absurd hs (Option.not_mem_none s)) _ (by omega),
      decodeBytes_ascii none (fun s hs => absurd hs (Option.not_mem_none s)) _ (by omega), List.append_assoc]
    rfl

theorem decode_utf8 {l : List Char} (h : ∀ c ∈ l.head?, c.toNat ≠ 0xFEFF) : decode (utf8 l) = l := by
  unfold decode
  rw [decodeBytes_utf8]
  cases l with
  | nil => rfl
  | cons c l => exact if_neg (h c rfl)

end Premise.Js
