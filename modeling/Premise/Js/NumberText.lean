import Mathlib

/-!
# Numbers as texts

A number is known by the decimal that its text denotes. `Number.prototype.toString` writes the digits of
the decimal with a point, with zeros, or with an exponent, depending on where the point is; the number of
a text is read by the grammar of JSON. Reading a written number gives it back.
-/

namespace Premise.Js

/-! ## Decimals -/

def IsDecimal (q : ℚ) : Prop := q.den ∣ 10 ^ q.den

instance (q : ℚ) : Decidable (IsDecimal q) := inferInstanceAs (Decidable (_ ∣ _))

/-- Digits with an exponent, without the zeros at the end of the digits. -/
def stripZeros : Nat → Nat → Int → Nat × Int
  | 0, m, e => (m, e)
  | fuel + 1, m, e => if m % 10 = 0 then stripZeros fuel (m / 10) (e + 1) else (m, e)

def decimalOf (q : ℚ) : Nat × Int :=
  stripZeros (q.num.natAbs * (10 ^ q.den / q.den)) (q.num.natAbs * (10 ^ q.den / q.den)) (-q.den)

/-- `digits × 10 ^ exponent`. -/
def decimalValue (digits : Nat) (exponent : Int) : ℚ := digits * (10 : ℚ) ^ exponent

theorem decimalValue_mul_pow (m k : Nat) (e : Int) : decimalValue (m * 10 ^ k) e = decimalValue m (e + k) := by
  unfold decimalValue
  rw [zpow_add₀ (by norm_num), zpow_natCast]
  push_cast
  ring

theorem decimalValue_stripZeros (fuel m : Nat) (e : Int) :
    decimalValue (stripZeros fuel m e).1 (stripZeros fuel m e).2 = decimalValue m e := by
  induction fuel generalizing m e with
  | zero => rfl
  | succ fuel ih =>
    unfold stripZeros
    split_ifs with hzero
    · rw [ih]
      have hsplit : m = m / 10 * 10 ^ 1 := by omega
      conv_rhs => rw [hsplit, decimalValue_mul_pow]
      rfl
    · rfl

theorem decimalValue_decimalOf {q : ℚ} (h : IsDecimal q) : decimalValue (decimalOf q).1 (decimalOf q).2 = |q| := by
  unfold decimalOf
  rw [decimalValue_stripZeros]
  obtain ⟨c, hc⟩ := h
  have hden : (q.den : ℚ) ≠ 0 := Nat.cast_ne_zero.mpr q.den_nz
  have hpow : (10 : ℚ) ^ q.den ≠ 0 := pow_ne_zero _ (by norm_num)
  have hquot : 10 ^ q.den / q.den = c := by
    rw [hc]
    exact Nat.mul_div_cancel_left c q.den_pos
  have hcast : (10 : ℚ) ^ q.den = q.den * c := by exact_mod_cast hc
  unfold decimalValue
  rw [hquot, zpow_neg, zpow_natCast, hcast]
  have hc0 : (c : ℚ) ≠ 0 := by
    intro hzero
    rw [hzero, mul_zero] at hcast
    exact hpow hcast
  rw [Rat.abs_def, Rat.divInt_eq_div]
  push_cast
  field_simp
  rw [Nat.cast_natAbs, Int.cast_abs]

theorem stripZeros_ne_zero {fuel m : Nat} (hm : m ≠ 0) (e : Int) : (stripZeros fuel m e).1 ≠ 0 := by
  induction fuel generalizing m e with
  | zero => exact hm
  | succ fuel ih =>
    unfold stripZeros
    split_ifs with hzero
    · exact ih (by omega) _
    · exact hm

theorem decimalOf_ne_zero {q : ℚ} (hq : q ≠ 0) : (decimalOf q).1 ≠ 0 := by
  refine stripZeros_ne_zero (Nat.mul_ne_zero ?_ ?_) _
  · rw [Ne, Int.natAbs_eq_zero, Rat.num_eq_zero]
    exact hq
  · rw [Ne, Nat.div_eq_zero_iff]
    rintro (hzero | hlt)
    · exact q.den_nz hzero
    · exact absurd (Nat.lt_pow_self (by decide : 1 < 10)) (Nat.not_lt_of_gt hlt)

theorem isDecimal_intCast (n : Int) : IsDecimal n := by
  unfold IsDecimal
  rw [Rat.den_intCast]
  exact one_dvd _

/-- Digits with the point after the first one, and a power of ten. -/
def exponential (digits : List Char) (power : Int) : List Char :=
  digits.take 1 ++ ((if digits.length = 1 then [] else '.' :: digits.drop 1)
    ++ 'e' :: (if power < 0 then '-' else '+') :: Nat.toDigits 10 power.natAbs)

def layout (digits : List Char) (exponent : Int) : List Char :=
  let point := digits.length + exponent
  if digits.length ≤ point ∧ point ≤ 21 then
    digits ++ List.replicate (point - digits.length).toNat '0'
  else if 0 < point ∧ point ≤ 21 then
    digits.take point.toNat ++ '.' :: digits.drop point.toNat
  else if -6 < point ∧ point ≤ 0 then
    '0' :: '.' :: (List.replicate (-point).toNat '0' ++ digits)
  else exponential digits (point - 1)

/-- `JSON.stringify` of a finite number. -/
def numberText (q : ℚ) : List Char :=
  if q = 0 then ['0']
  else (if q < 0 then ['-'] else [])
    ++ layout (Nat.toDigits 10 (decimalOf q).1) (decimalOf q).2

def readMany (l : List Char) : Option (List Char × List Char) :=
  match l.takeWhile Char.isDigit with
  | [] => none
  | digits => some (digits, l.dropWhile Char.isDigit)

def readWhole : List Char → Option (List Char × List Char)
  | '0' :: l => some (['0'], l)
  | l => readMany l

def readPoint : List Char → Option (List Char × List Char)
  | '.' :: l => readMany l
  | l => some ([], l)

/-- Read the digits of an exponent, with the sign before them. -/
def readSigned : List Char → Option (Int × List Char)
  | '-' :: l => (readMany l).map (fun p => (-(Nat.ofDigitChars 10 p.1 0 : Int), p.2))
  | '+' :: l => (readMany l).map (fun p => ((Nat.ofDigitChars 10 p.1 0 : Int), p.2))
  | l => (readMany l).map (fun p => ((Nat.ofDigitChars 10 p.1 0 : Int), p.2))

def readExponent : List Char → Option (Int × List Char)
  | 'e' :: l => readSigned l
  | 'E' :: l => readSigned l
  | l => some (0, l)

def readUnsigned (l : List Char) : Option (ℚ × List Char) := do
  let (whole, l) ← readWhole l
  let (fraction, l) ← readPoint l
  let (exponent, l) ← readExponent l
  return (decimalValue (Nat.ofDigitChars 10 (whole ++ fraction) 0) (exponent - fraction.length), l)

def readNumber : List Char → Option (ℚ × List Char)
  | '-' :: l => (readUnsigned l).map (fun p => (-p.1, p.2))
  | l => readUnsigned l

/-! ## Reading what is written -/

def NumberEnd (r : List Char) : Prop :=
  ∀ c ∈ r.head?, c.isDigit = false ∧ c ≠ '.' ∧ c ≠ 'e' ∧ c ≠ 'E'

variable {digits r : List Char}

theorem readMany_append (hne : digits ≠ []) (hdigits : ∀ c ∈ digits, c.isDigit = true)
    (hr : ∀ c ∈ r.head?, c.isDigit = false) : readMany (digits ++ r) = some (digits, r) := by
  have htake : (digits ++ r).takeWhile Char.isDigit = digits := by
    rw [List.takeWhile_append_of_pos hdigits]
    cases r with
    | nil => rw [List.takeWhile_nil, List.append_nil]
    | cons c r => rw [List.takeWhile_cons_of_neg (by rw [hr c rfl]; decide), List.append_nil]
  have hdrop : (digits ++ r).dropWhile Char.isDigit = r := by
    rw [List.dropWhile_append_of_pos hdigits]
    cases r with
    | nil => rfl
    | cons c r => exact List.dropWhile_cons_of_neg (by rw [hr c rfl]; decide)
  unfold readMany
  rw [htake, hdrop]
  cases digits with
  | nil => exact absurd rfl hne
  | cons d digits => rfl

/-- Digits that do not start with a zero. -/
structure Digits (digits : List Char) : Prop where
  ne_nil : digits ≠ []
  digit : ∀ c ∈ digits, c.isDigit = true
  head : digits.head? ≠ some '0'

theorem digits_toDigits {n : Nat} (hn : n ≠ 0) : Digits (Nat.toDigits 10 n) := by
  have hall : ∀ c ∈ Nat.toDigits 10 n, c.isDigit = true :=
    fun c hc => Nat.isDigit_of_mem_toDigits (by decide) (by decide) hc
  have hhead : (Nat.toDigits 10 n).head? ≠ some '0' ∧ Nat.toDigits 10 n ≠ [] := by
    clear hall
    induction n using Nat.strong_induction_on with
    | _ n ih =>
      by_cases hlt : n < 10
      · rw [Nat.toDigits_of_lt_base hlt]
        interval_cases n
        · exact absurd rfl hn
        all_goals decide
      · rw [Nat.toDigits_of_base_le (by decide) (Nat.not_lt.mp hlt)]
        obtain ⟨hhead, hne⟩ := ih (n / 10) (by omega) (by omega)
        cases hdigits : Nat.toDigits 10 (n / 10) with
        | nil => exact absurd hdigits hne
        | cons d digits =>
          rw [hdigits] at hhead
          exact ⟨hhead, List.cons_ne_nil _ _⟩
  exact ⟨hhead.2, hall, hhead.1⟩

theorem toDigits_ne_nil (n : Nat) : Nat.toDigits 10 n ≠ [] := by
  rcases Nat.eq_zero_or_pos n with rfl | hpos
  · rw [Nat.toDigits_zero]
    exact List.cons_ne_nil _ _
  · exact (digits_toDigits hpos.ne').ne_nil

theorem readWhole_append (h : Digits digits) (hr : ∀ c ∈ r.head?, c.isDigit = false) :
    readWhole (digits ++ r) = some (digits, r) := by
  have hmany := readMany_append h.ne_nil h.digit hr
  cases digits with
  | nil => exact absurd rfl h.ne_nil
  | cons d digits =>
    have hd : d ≠ '0' := fun hd => h.head (by rw [hd]; rfl)
    rw [List.cons_append] at hmany ⊢
    unfold readWhole
    split
    · rename_i heq
      exact absurd (List.cons.inj heq).1 hd
    · exact hmany

theorem readPoint_end (h : ∀ c ∈ r.head?, c ≠ '.') : readPoint r = some ([], r) := by
  unfold readPoint
  split
  · exact absurd rfl (h '.' rfl)
  · rfl

theorem readExponent_end (h : ∀ c ∈ r.head?, c ≠ 'e' ∧ c ≠ 'E') : readExponent r = some (0, r) := by
  unfold readExponent
  split
  · exact absurd rfl (h 'e' rfl).1
  · exact absurd rfl (h 'E' rfl).2
  · rfl

theorem readSigned_append (e : Int) (hr : ∀ c ∈ r.head?, c.isDigit = false) :
    readSigned ((if e < 0 then '-' else '+') :: (Nat.toDigits 10 e.natAbs ++ r)) = some (e, r) := by
  have hmany := readMany_append (toDigits_ne_nil e.natAbs)
    (fun c hc => Nat.isDigit_of_mem_toDigits (by decide) (by decide) hc) hr
  split_ifs with hneg
  · show (readMany _).map _ = _
    rw [hmany, Option.map_some, Nat.ofDigitChars_ten_toDigits]
    exact congrArg (fun e => some (e, r)) (by omega)
  · show (readMany _).map _ = _
    rw [hmany, Option.map_some, Nat.ofDigitChars_ten_toDigits]
    exact congrArg (fun e => some (e, r)) (by omega)

theorem readUnsigned_parts {whole fraction l1 l2 l3 : List Char} {exponent : Int}
    (hwhole : readWhole l1 = some (whole, l2)) (hpoint : readPoint l2 = some (fraction, l3))
    (hexponent : readExponent l3 = some (exponent, r)) :
    readUnsigned l1 = some (decimalValue (Nat.ofDigitChars 10 (whole ++ fraction) 0)
      (exponent - fraction.length), r) := by
  unfold readUnsigned
  simp only [hwhole, hpoint, hexponent, Option.bind_eq_bind, Option.bind_some, Option.pure_def]

theorem readUnsigned_exponential (h : Digits digits) (power : Int) (hr : NumberEnd r) :
    readUnsigned (exponential digits power ++ r) =
      some (decimalValue (Nat.ofDigitChars 10 digits 0) (power - (digits.length - 1)), r) := by
  obtain ⟨d, digits, rfl⟩ := List.exists_cons_of_ne_nil h.ne_nil
  have hfirst : Digits [d] := by
    refine ⟨List.cons_ne_nil _ _, fun c hc => h.digit c ?_, h.head⟩
    rw [List.mem_singleton.mp hc]
    exact List.mem_cons_self
  have hpower : readExponent ('e' :: (if power < 0 then '-' else '+') ::
      (Nat.toDigits 10 power.natAbs ++ r)) = some (power, r) :=
    readSigned_append power (fun c hc => (hr c hc).1)
  have hnot : ∀ (c : Char) (l : List Char), c.isDigit = false → ∀ c' ∈ (c :: l).head?, c'.isDigit = false := by
    rintro c l hc c' hc'
    exact (Option.some.inj hc') ▸ hc
  cases digits with
  | nil =>
    have htext : exponential [d] power ++ r = [d] ++ 'e' :: (if power < 0 then '-' else '+') ::
        (Nat.toDigits 10 power.natAbs ++ r) := by
      unfold exponential
      simp
    rw [htext, readUnsigned_parts (readWhole_append hfirst (hnot 'e' _ (by decide)))
      (readPoint_end (by rintro c hc; obtain rfl := Option.some.inj hc; decide)) hpower,
      List.append_nil]
    simp
  | cons d' digits =>
    have htext : exponential (d :: d' :: digits) power ++ r = [d] ++ '.' :: ((d' :: digits) ++ 'e' ::
        (if power < 0 then '-' else '+') :: (Nat.toDigits 10 power.natAbs ++ r)) := by
      unfold exponential
      simp
    have hrest : readPoint ('.' :: ((d' :: digits) ++ 'e' :: (if power < 0 then '-' else '+') ::
        (Nat.toDigits 10 power.natAbs ++ r))) = some (d' :: digits, 'e' ::
          (if power < 0 then '-' else '+') :: (Nat.toDigits 10 power.natAbs ++ r)) :=
      readMany_append (List.cons_ne_nil _ _) (fun c hc => h.digit c (List.mem_cons_of_mem _ hc))
        (hnot 'e' _ (by decide))
    rw [htext, readUnsigned_parts (readWhole_append hfirst (hnot '.' _ (by decide))) hrest hpower]
    refine congrArg (fun e => some (decimalValue _ e, r)) ?_
    simp only [List.length_cons]
    omega

theorem readUnsigned_layout (h : Digits digits) (exponent : Int) (hr : NumberEnd r) :
    readUnsigned (layout digits exponent ++ r) =
      some (decimalValue (Nat.ofDigitChars 10 digits 0) exponent, r) := by
  have hdigit : ∀ c ∈ r.head?, c.isDigit = false := fun c hc => (hr c hc).1
  have hpoint : readPoint r = some ([], r) := readPoint_end (fun c hc => (hr c hc).2.1)
  have hexponent : readExponent r = some (0, r) := readExponent_end (fun c hc => (hr c hc).2.2)
  have hlen : 0 < digits.length := List.length_pos_of_ne_nil h.ne_nil
  unfold layout
  dsimp only
  split_ifs with hzeros hinside hbefore
  · -- Zeros follow the digits.
    have hwhole : Digits (digits ++ List.replicate (digits.length + exponent - digits.length).toNat '0') := by
      refine ⟨fun hnil => h.ne_nil (List.append_eq_nil_iff.mp hnil).1, fun c hc => ?_, ?_⟩
      · rcases List.mem_append.mp hc with hc | hc
        · exact h.digit c hc
        · rw [(List.mem_replicate.mp hc).2]
          decide
      · rw [List.head?_append_of_ne_nil _ h.ne_nil]
        exact h.head
    rw [readUnsigned_parts (readWhole_append hwhole hdigit) hpoint hexponent, List.append_nil,
      Nat.ofDigitChars_append, Nat.ofDigitChars_replicate_zero, Nat.mul_comm, decimalValue_mul_pow]
    refine congrArg (fun e => some (decimalValue _ e, r)) ?_
    simp only [List.length_nil]
    omega
  · -- The point is inside.
    have hfirst : Digits (digits.take (digits.length + exponent).toNat) := by
      refine ⟨fun hnil => ?_, fun c hc => h.digit c (List.mem_of_mem_take hc), ?_⟩
      · rcases List.take_eq_nil_iff.mp hnil with hzero | hnil
        · omega
        · exact h.ne_nil hnil
      · rw [List.head?_take, if_neg (by omega)]
        exact h.head
    have hrest : readPoint ('.' :: (digits.drop (digits.length + exponent).toNat ++ r))
        = some (digits.drop (digits.length + exponent).toNat, r) := by
      refine readMany_append (fun hnil => ?_) (fun c hc => h.digit c (List.mem_of_mem_drop hc)) hdigit
      have := List.drop_eq_nil_iff.mp hnil
      omega
    rw [List.append_assoc, List.cons_append, readUnsigned_parts (readWhole_append hfirst ?_) hrest hexponent,
      List.take_append_drop]
    · refine congrArg (fun e => some (decimalValue _ e, r)) ?_
      rw [List.length_drop]
      omega
    · rintro c hc
      cases hc
      decide
  · -- The digits follow the point.
    have hrest : readPoint ('.' :: (List.replicate (-(digits.length + exponent)).toNat '0' ++ digits ++ r))
        = some (List.replicate (-(digits.length + exponent)).toNat '0' ++ digits, r) := by
      refine readMany_append (fun hnil => h.ne_nil (List.append_eq_nil_iff.mp hnil).2) (fun c hc => ?_) hdigit
      rcases List.mem_append.mp hc with hc | hc
      · rw [(List.mem_replicate.mp hc).2]
        decide
      · exact h.digit c hc
    rw [List.cons_append, List.cons_append, readUnsigned_parts rfl hrest hexponent]
    have hvalue : Nat.ofDigitChars 10 (['0'] ++ (List.replicate (-(digits.length + exponent)).toNat '0'
        ++ digits)) 0 = Nat.ofDigitChars 10 digits 0 := by
      rw [List.singleton_append, Nat.ofDigitChars_cons, Nat.ofDigitChars_append, Nat.ofDigitChars_replicate_zero]
      simp
    rw [hvalue]
    refine congrArg (fun e => some (decimalValue _ e, r)) ?_
    rw [List.length_append, List.length_replicate]
    omega
  · -- The digits have an exponent.
    rw [readUnsigned_exponential h _ hr]
    refine congrArg (fun e => some (decimalValue _ e, r)) ?_
    omega

theorem layout_head (h : Digits digits) (exponent : Int) : ∃ c l, layout digits exponent = c :: l ∧ c.isDigit = true := by
  obtain ⟨d, rest, rfl⟩ := List.exists_cons_of_ne_nil h.ne_nil
  have hd := h.digit d List.mem_cons_self
  unfold layout
  dsimp only
  split_ifs with hzeros hinside hbefore
  · exact ⟨d, _, rfl, hd⟩
  · obtain ⟨n, hn⟩ : ∃ n, ((d :: rest).length + exponent).toNat = n + 1 :=
      Nat.exists_eq_succ_of_ne_zero (by omega)
    rw [hn]
    exact ⟨d, _, rfl, hd⟩
  · exact ⟨'0', _, rfl, by decide⟩
  · exact ⟨d, _, rfl, hd⟩

theorem readNumber_numberText {q : ℚ} (hq : IsDecimal q) (hr : NumberEnd r) :
    readNumber (numberText q ++ r) = some (q, r) := by
  unfold numberText
  by_cases hzero : q = 0
  · rw [if_pos hzero, hzero, List.singleton_append]
    show readUnsigned ('0' :: r) = _
    rw [readUnsigned_parts rfl (readPoint_end (fun c hc => (hr c hc).2.1)) (readExponent_end (fun c hc => (hr c hc).2.2))]
    simp [decimalValue, Nat.ofDigitChars_cons]
  · rw [if_neg hzero]
    have hdigits := digits_toDigits (decimalOf_ne_zero hzero)
    have hread := readUnsigned_layout hdigits (decimalOf q).2 hr
    rw [Nat.ofDigitChars_ten_toDigits, decimalValue_decimalOf hq] at hread
    split_ifs with hneg
    · show (readUnsigned (layout _ _ ++ r)).map _ = _
      rw [hread, Option.map_some, abs_of_neg hneg, neg_neg]
    · rw [List.nil_append]
      obtain ⟨c, l, hlayout, hc⟩ := layout_head hdigits (decimalOf q).2
      have hsign : readNumber (layout (Nat.toDigits 10 (decimalOf q).1) (decimalOf q).2 ++ r)
          = readUnsigned (layout (Nat.toDigits 10 (decimalOf q).1) (decimalOf q).2 ++ r) := by
        rw [hlayout, List.cons_append]
        unfold readNumber
        split
        · rename_i heq
          rw [(List.cons.inj heq).1] at hc
          exact absurd hc (by decide)
        · rfl
      rw [hsign, hread, abs_of_nonneg (not_lt.mp hneg)]

/-!
# Integers as texts

`Number.prototype.toString` writes an integer below 10^21 as its decimal digits.
-/

theorem le_stripZeros (fuel m : Nat) (e : Int) : e ≤ (stripZeros fuel m e).2 := by
  induction fuel generalizing m e with
  | zero => exact le_rfl
  | succ fuel ih =>
    unfold stripZeros
    split_ifs
    · have hle := ih (m / 10) (e + 1)
      omega
    · exact le_rfl

theorem decimalOf_intCast {n : Int} (hn : n ≠ 0) :
    ∃ k : Nat, (decimalOf n).2 = k ∧ (decimalOf n).1 * 10 ^ k = n.natAbs := by
  have hdecimal : decimalValue (decimalOf n).1 (decimalOf n).2 = |(n : ℚ)| :=
    decimalValue_decimalOf (isDecimal_intCast n)
  have hexponent : 0 ≤ (decimalOf n).2 := by
    have hpos : 0 < n.natAbs := Int.natAbs_pos.mpr hn
    unfold decimalOf
    rw [Rat.num_intCast, Rat.den_intCast]
    obtain ⟨fuel, hfuel⟩ : ∃ fuel, n.natAbs * (10 ^ 1 / 1) = fuel + 1 := ⟨n.natAbs * (10 ^ 1 / 1) - 1, by omega⟩
    -- The first zero, of the factor ten, is stripped at once.
    have hstep : stripZeros (n.natAbs * (10 ^ 1 / 1)) (n.natAbs * (10 ^ 1 / 1)) (-(1 : Nat))
        = stripZeros fuel (n.natAbs * (10 ^ 1 / 1) / 10) (-(1 : Nat) + 1) := by
      conv_lhs => rw [hfuel]
      rw [stripZeros, ← hfuel, if_pos (by omega)]
    rw [hstep]
    exact le_stripZeros _ _ _
  refine ⟨(decimalOf n).2.toNat, (Int.toNat_of_nonneg hexponent).symm, ?_⟩
  have hpower : (10 : ℚ) ^ (decimalOf n).2 = 10 ^ (decimalOf n).2.toNat := by
    rw [← zpow_natCast, Int.toNat_of_nonneg hexponent]
  unfold decimalValue at hdecimal
  rw [hpower, ← Int.cast_abs, ← Int.natCast_natAbs] at hdecimal
  exact_mod_cast hdecimal

theorem toDigits_mul_pow {d : Nat} (hd : d ≠ 0) (k : Nat) :
    Nat.toDigits 10 (d * 10 ^ k) = Nat.toDigits 10 d ++ List.replicate k '0' := by
  induction k with
  | zero => simp
  | succ k ih =>
    have hpos : 0 < d * 10 ^ k := Nat.mul_pos (Nat.pos_of_ne_zero hd) (by positivity)
    have hlast := Nat.toDigits_append_toDigits (b := 10) (d := 0) (by decide) hpos (by decide)
    rw [pow_succ, ← mul_assoc, mul_comm (d * 10 ^ k) 10, ← Nat.add_zero (10 * (d * 10 ^ k)), ← hlast, ih,
      Nat.toDigits_zero, List.append_assoc, List.replicate_succ']

theorem numberText_intCast {n : Int} (hn : n.natAbs < 10 ^ 21) :
    numberText n = (if n < 0 then ['-'] else []) ++ Nat.toDigits 10 n.natAbs := by
  unfold numberText
  by_cases hzero : n = 0
  · rw [hzero]
    simp
  · rw [if_neg (Int.cast_ne_zero.mpr hzero)]
    obtain ⟨k, hk, hmagnitude⟩ := decimalOf_intCast hzero
    have hd : (decimalOf n).1 ≠ 0 := decimalOf_ne_zero (Int.cast_ne_zero.mpr hzero)
    have hdigits := toDigits_mul_pow hd k
    rw [hmagnitude] at hdigits
    have hlength : (Nat.toDigits 10 n.natAbs).length ≤ 21 :=
      (Nat.length_toDigits_le_iff (by decide) (by decide)).mpr hn
    rw [hdigits, List.length_append, List.length_replicate] at hlength
    have hlayout : layout (Nat.toDigits 10 (decimalOf n).1) k = Nat.toDigits 10 n.natAbs := by
      unfold layout
      rw [hdigits, if_pos (by omega)]
      congr 2
      omega
    rw [hk, hlayout]
    have hsign : ((n : ℚ) < 0) ↔ n < 0 := Int.cast_lt_zero
    simp only [hsign]

end Premise.Js
