import Premise.Js.Basic
import Premise.Js.NumberText

/-!
# Doubles

The number that a numeral stands for: the nearest double, known by the shortest decimal that stands for
it. A numeral beyond the range of doubles stands for an infinity. Zero has no sign.
-/

namespace Premise.Js

/-- `base ^ exponent`. -/
def power (base : Nat) : Int → ℚ
  | .ofNat n => (base ^ n : Nat)
  | .negSucc n => 1 / (base ^ (n + 1) : Nat)

def roundTiesToEven (x : ℚ) : Int :=
  if x - ⌊x⌋ < 1 / 2 then ⌊x⌋
  else if 1 / 2 < x - ⌊x⌋ then ⌊x⌋ + 1
  else if ⌊x⌋ % 2 = 0 then ⌊x⌋
  else ⌊x⌋ + 1

/-- The exponent of the leading binary digit of a positive number. -/
def binaryExponent (x : ℚ) : Int :=
  let e : Int := (Nat.log2 x.num.natAbs : Int) - Nat.log2 x.den
  if power 2 e ≤ x then e else e - 1

/-- The exponent of the last binary digit that a double near a positive number has. -/
def lastExponent (x : ℚ) : Int := max (binaryExponent x - 52) (-1074)

/-- The nearest double of a positive number, without a bound on its exponent. -/
def nearestDouble (x : ℚ) : ℚ := roundTiesToEven (x / power 2 (lastExponent x)) * power 2 (lastExponent x)

/-- The multiples of a power of ten around a number, the nearer one first. -/
def decimalsAround (x : ℚ) (exponent : Int) : List ℚ :=
  let below := ⌊x / power 10 exponent⌋
  let low : ℚ := below * power 10 exponent
  let high : ℚ := (below + 1 : Int) * power 10 exponent
  if x - low < high - x ∨ (x - low = high - x ∧ below % 2 = 0) then [low, high] else [high, low]

/-- An exponent above the first decimal digit of a positive number. -/
def decimalTop (x : ℚ) : Int :=
  if 1 ≤ x then (Nat.toDigits 10 ⌊x⌋.toNat).length else 2 - (Nat.toDigits 10 ⌊1 / x⌋.toNat).length

def shortestDecimal (x : ℚ) : ℚ :=
  ((List.range 22).findSome? (fun i : Nat =>
    (decimalsAround x (decimalTop x - i)).find? (fun c => nearestDouble c = x))).getD x

def toDouble (q : ℚ) : Number :=
  if q = 0 then .finite 0
  else if power 2 1024 ≤ nearestDouble |q| then .infinity (decide (q < 0))
  else .finite (if q < 0 then -shortestDecimal (nearestDouble |q|) else shortestDecimal (nearestDouble |q|))

theorem isDecimal_of_den_dvd {q : ℚ} {k : Nat} (h : q.den ∣ 10 ^ k) : IsDecimal q := by
  unfold IsDecimal
  refine (Nat.factorization_prime_le_iff_dvd q.den_nz (pow_ne_zero _ (by norm_num))).mp ?_
  intro p hp
  by_cases hpd : p ∣ q.den
  · have hten : p ∣ 10 := hp.dvd_of_dvd_pow (hpd.trans h)
    have hone : 1 ≤ (10 : Nat).factorization p := (hp.dvd_iff_one_le_factorization (by norm_num)).mp hten
    rw [Nat.factorization_pow, Finsupp.smul_apply, smul_eq_mul]
    calc q.den.factorization p ≤ q.den := (Nat.factorization_lt p q.den_nz).le
      _ = q.den * 1 := (Nat.mul_one _).symm
      _ ≤ q.den * (10 : Nat).factorization p := Nat.mul_le_mul_left _ hone
  · rw [Nat.factorization_eq_zero_of_not_dvd hpd]
    exact Nat.zero_le _

theorem isDecimal_mul_power (n : Int) {base : Nat} (hbase : base ∣ 10) (e : Int) : IsDecimal (n * power base e) := by
  cases e with
  | ofNat k =>
    have hint : ((n : ℚ) * power base (.ofNat k)) = ((n * (base ^ k : Nat) : Int) : ℚ) := by
      unfold power
      push_cast
      rfl
    rw [hint]
    exact isDecimal_intCast _
  | negSucc k =>
    have hdiv : ((n : ℚ) * power base (.negSucc k)) = (n : ℚ) / ((base ^ (k + 1) : Nat) : Int) := by
      unfold power
      push_cast
      ring
    have hden : (((n : ℚ) / ((base ^ (k + 1) : Nat) : Int)).den : Int) ∣ ((base ^ (k + 1) : Nat) : Int) := by
      rw [← Rat.divInt_eq_div]
      exact Rat.den_dvd n _
    rw [hdiv]
    exact isDecimal_of_den_dvd ((Int.natCast_dvd_natCast.mp hden).trans (pow_dvd_pow_of_dvd hbase (k + 1)))

theorem isDecimal_neg {q : ℚ} (h : IsDecimal q) : IsDecimal (-q) := by
  unfold IsDecimal
  rw [Rat.neg_den]
  exact h

theorem isDecimal_nearestDouble (x : ℚ) : IsDecimal (nearestDouble x) :=
  isDecimal_mul_power _ (by norm_num) _

theorem isDecimal_decimalsAround {x c : ℚ} {e : Int} (h : c ∈ decimalsAround x e) : IsDecimal c := by
  unfold decimalsAround at h
  have hcases : c = (⌊x / power 10 e⌋ : Int) * power 10 e ∨ c = (⌊x / power 10 e⌋ + 1 : Int) * power 10 e := by
    dsimp only at h
    split_ifs at h
    · simpa using h
    · simpa [or_comm] using h
  rcases hcases with rfl | rfl
  · exact isDecimal_mul_power _ (by norm_num) _
  · exact isDecimal_mul_power _ (by norm_num) _

theorem isDecimal_shortestDecimal {x : ℚ} (h : IsDecimal x) : IsDecimal (shortestDecimal x) := by
  unfold shortestDecimal
  cases hfound : (List.range 22).findSome? (fun i : Nat =>
      (decimalsAround x (decimalTop x - i)).find? (fun c => nearestDouble c = x)) with
  | none => exact h
  | some c =>
    obtain ⟨i, -, hi⟩ := List.exists_of_findSome?_eq_some hfound
    exact isDecimal_decimalsAround (List.mem_of_find?_eq_some hi)

theorem isDecimal_toDouble {q r : ℚ} (h : toDouble q = .finite r) : IsDecimal r := by
  unfold toDouble at h
  split_ifs at h
  · obtain rfl := Number.finite.inj h
    exact isDecimal_intCast 0
  · obtain rfl := Number.finite.inj h
    exact isDecimal_neg (isDecimal_shortestDecimal (isDecimal_nearestDouble _))
  · obtain rfl := Number.finite.inj h
    exact isDecimal_shortestDecimal (isDecimal_nearestDouble _)

/-! ## Integers -/

@[simp] theorem power_natCast (base n : Nat) : power base (n : Int) = (base : ℚ) ^ n := by
  show ((base ^ n : Nat) : ℚ) = _
  push_cast
  rfl

theorem power_eq_zpow (base : Nat) (e : Int) : power base e = (base : ℚ) ^ e := by
  cases e with
  | ofNat n => simp [power]
  | negSucc n => simp [power, zpow_negSucc]

theorem floor_le_roundTiesToEven (x : ℚ) : ⌊x⌋ ≤ roundTiesToEven x := by
  unfold roundTiesToEven
  split_ifs <;> omega

theorem roundTiesToEven_intCast (n : Int) : roundTiesToEven n = n := by
  unfold roundTiesToEven
  rw [if_pos (by simp)]
  exact Int.floor_intCast n

theorem power_binaryExponent_le {x : ℚ} (hx : 0 < x) : power 2 (binaryExponent x) ≤ x := by
  unfold binaryExponent
  dsimp only
  split
  · assumption
  · have hnum : 0 < x.num := Rat.num_pos.mpr hx
    have hlog : 2 ^ Nat.log2 x.num.natAbs ≤ x.num.natAbs := Nat.log2_self_le (by omega)
    have hden : x.den < 2 ^ (Nat.log2 x.den + 1) := Nat.lt_log2_self
    have hvalue : x = (x.num.natAbs : ℚ) / x.den := by
      conv_lhs => rw [← Rat.num_div_den x]
      rw [Nat.cast_natAbs, abs_of_pos hnum]
    rw [power_eq_zpow, show ((Nat.log2 x.num.natAbs : Int) - Nat.log2 x.den - 1)
        = (Nat.log2 x.num.natAbs : Int) - (Nat.log2 x.den + 1 : Nat) by push_cast; ring,
      zpow_sub₀ (by norm_num), zpow_natCast, zpow_natCast]
    have hpos : (0 : ℚ) < x.den := Nat.cast_pos.mpr x.den_pos
    refine le_of_le_of_eq ?_ hvalue.symm
    rw [div_le_div_iff₀ (by positivity) hpos]
    exact_mod_cast Nat.mul_le_mul hlog hden.le

theorem lt_power_binaryExponent {x : ℚ} (hx : 0 < x) : x < power 2 (binaryExponent x + 1) := by
  unfold binaryExponent
  dsimp only
  split
  · have hnum : 0 < x.num := Rat.num_pos.mpr hx
    have hlog : x.num.natAbs < 2 ^ (Nat.log2 x.num.natAbs + 1) := Nat.lt_log2_self
    have hden : 2 ^ Nat.log2 x.den ≤ x.den := Nat.log2_self_le x.den_nz
    have hvalue : x = (x.num.natAbs : ℚ) / x.den := by
      conv_lhs => rw [← Rat.num_div_den x]
      rw [Nat.cast_natAbs, abs_of_pos hnum]
    rw [power_eq_zpow, show ((Nat.log2 x.num.natAbs : Int) - Nat.log2 x.den + 1)
        = (Nat.log2 x.num.natAbs + 1 : Nat) - (Nat.log2 x.den : Int) by push_cast; ring,
      zpow_sub₀ (by norm_num), zpow_natCast, zpow_natCast]
    have hpos : (0 : ℚ) < x.den := Nat.cast_pos.mpr x.den_pos
    refine lt_of_eq_of_lt hvalue ?_
    rw [div_lt_div_iff₀ hpos (by positivity)]
    have hlt : x.num.natAbs * 2 ^ Nat.log2 x.den < 2 ^ (Nat.log2 x.num.natAbs + 1) * x.den :=
      Nat.mul_lt_mul_of_lt_of_le hlog hden (by positivity)
    exact_mod_cast hlt
  · rename_i hlt
    rw [sub_add_cancel]
    exact not_le.mp hlt

theorem nearestDouble_natCast {n : Nat} (hpos : 0 < n) (h : n < 2 ^ 53) : nearestDouble n = n := by
  have hx : (0 : ℚ) < n := Nat.cast_pos.mpr hpos
  have hexponent : binaryExponent n ≤ 52 := by
    by_contra hlarge
    have hle := power_binaryExponent_le hx
    rw [power_eq_zpow] at hle
    have hmono : (2 : ℚ) ^ (53 : Int) ≤ (2 : ℚ) ^ binaryExponent n :=
      zpow_le_zpow_right₀ (by norm_num) (by omega)
    have hcast : (n : ℚ) < 2 ^ (53 : Int) := by exact_mod_cast h
    exact absurd (hmono.trans hle) (not_le.mpr hcast)
  obtain ⟨k, hk⟩ : ∃ k : Nat, lastExponent (n : ℚ) = -(k : Int) :=
    ⟨(-(lastExponent (n : ℚ))).toNat, by unfold lastExponent; omega⟩
  unfold nearestDouble
  rw [hk, power_eq_zpow, zpow_neg, zpow_natCast]
  have hint : (n : ℚ) / ((2 : Nat) ^ k : ℚ)⁻¹ = ((n * 2 ^ k : Nat) : Int) := by
    rw [div_inv_eq_mul]
    push_cast
    rfl
  rw [hint, roundTiesToEven_intCast]
  push_cast
  field_simp

theorem le_nearestDouble {x : ℚ} (h : 2 ^ 53 ≤ x) : 2 ^ 53 ≤ nearestDouble x := by
  have hx : 0 < x := lt_of_lt_of_le (by norm_num) h
  have hexponent : 53 ≤ binaryExponent x := by
    by_contra hsmall
    have hlt := lt_power_binaryExponent hx
    rw [power_eq_zpow] at hlt
    have hmono : (2 : ℚ) ^ (binaryExponent x + 1) ≤ (2 : ℚ) ^ (53 : Int) :=
      zpow_le_zpow_right₀ (by norm_num) (by omega)
    have hcast : (2 : ℚ) ^ (53 : Int) = 2 ^ 53 := by norm_num
    exact absurd (hlt.trans_le (hmono.trans hcast.le)) (not_lt.mpr h)
  have hlast : lastExponent x = binaryExponent x - 52 := by
    unfold lastExponent
    omega
  have hpos : (0 : ℚ) < power 2 (lastExponent x) := by
    rw [power_eq_zpow]
    positivity
  have hfloor : (2 : Int) ^ 52 ≤ ⌊x / power 2 (lastExponent x)⌋ := by
    rw [Int.le_floor, le_div_iff₀ hpos, hlast, power_eq_zpow]
    refine le_trans (le_of_eq ?_) ((power_eq_zpow 2 _).symm.le.trans (power_binaryExponent_le hx))
    rw [zpow_sub₀ (by norm_num)]
    push_cast
    ring
  have hround : ((2 : Int) ^ 52 : ℚ) ≤ roundTiesToEven (x / power 2 (lastExponent x)) := by
    exact_mod_cast hfloor.trans (floor_le_roundTiesToEven _)
  unfold nearestDouble
  calc (2 : ℚ) ^ 53 ≤ (2 : Int) ^ 52 * power 2 (lastExponent x) := by
        rw [hlast, power_eq_zpow]
        have htwo : (2 : ℚ) ^ (1 : Int) ≤ (2 : ℚ) ^ (binaryExponent x - 52) :=
          zpow_le_zpow_right₀ (by norm_num) (by omega)
        push_cast
        calc (2 : ℚ) ^ 53 = 2 ^ 52 * 2 ^ (1 : Int) := by norm_num
          _ ≤ 2 ^ 52 * 2 ^ (binaryExponent x - 52) := by gcongr
    _ ≤ roundTiesToEven (x / power 2 (lastExponent x)) * power 2 (lastExponent x) := by gcongr

theorem nearestDouble_zero : nearestDouble 0 = 0 := by
  unfold nearestDouble
  rw [zero_div, show (0 : ℚ) = ((0 : Int) : ℚ) from rfl, roundTiesToEven_intCast]
  simp

theorem natCast_of_mem_decimalsAround {n e : Nat} {c : ℚ} (h : c ∈ decimalsAround n e) : ∃ m : Nat, c = m := by
  have hfloor : 0 ≤ ⌊(n : ℚ) / power 10 e⌋ := Int.floor_nonneg.mpr (by rw [power_natCast]; positivity)
  obtain ⟨k, hk⟩ := Int.eq_ofNat_of_zero_le hfloor
  have hcases : c = (k : ℚ) * 10 ^ e ∨ c = ((k : ℚ) + 1) * 10 ^ e := by
    unfold decimalsAround at h
    rw [hk, power_natCast] at h
    dsimp only at h
    split_ifs at h
    · simpa using h
    · simpa [or_comm] using h
  rcases hcases with rfl | rfl
  · exact ⟨k * 10 ^ e, by push_cast; rfl⟩
  · exact ⟨(k + 1) * 10 ^ e, by push_cast; rfl⟩

theorem mem_decimalsAround_zero (n : Nat) : (n : ℚ) ∈ decimalsAround n 0 := by
  unfold decimalsAround
  have hpower : power 10 0 = 1 := by simp [power]
  have hfloor : ⌊(n : ℚ) / 1⌋ = n := by
    rw [div_one]
    exact Int.floor_natCast n
  rw [hpower, hfloor]
  dsimp only
  split_ifs <;> simp

theorem shortestDecimal_natCast {n : Nat} (hpos : 0 < n) (h : n < 2 ^ 53) : shortestDecimal n = n := by
  have hself := nearestDouble_natCast hpos h
  have htop : decimalTop (n : ℚ) = ((Nat.toDigits 10 n).length : Nat) := by
    unfold decimalTop
    rw [if_pos (by exact_mod_cast hpos), Int.floor_natCast]
    rfl
  have hdigits : (Nat.toDigits 10 n).length < 22 := by
    have hle : (Nat.toDigits 10 n).length ≤ 16 :=
      (Nat.length_toDigits_le_iff (by norm_num) (by norm_num)).mpr (h.trans (by norm_num))
    omega
  set search : Nat → Option ℚ := fun i =>
    (decimalsAround n (decimalTop n - i)).find? (fun c => nearestDouble c = n) with hsearch
  have hfound : ∃ c, search (Nat.toDigits 10 n).length = some c := by
    rw [← Option.isSome_iff_exists, hsearch]
    simp only [htop, sub_self, List.find?_isSome, decide_eq_true_eq]
    exact ⟨n, mem_decimalsAround_zero n, hself⟩
  have hsome : ((List.range 22).findSome? search).isSome := by
    rw [List.findSome?_isSome_iff]
    obtain ⟨c, hc⟩ := hfound
    exact ⟨_, List.mem_range.mpr hdigits, by rw [hc]; rfl⟩
  obtain ⟨c, hc⟩ := Option.isSome_iff_exists.mp hsome
  have hshortest : shortestDecimal n = c := by
    unfold shortestDecimal
    rw [hc]
    rfl
  rw [hshortest]
  obtain ⟨before, i, after, hrange, hi, hnone⟩ := List.findSome?_eq_some_iff.mp hc
  -- The first hit is at the last digit of the integer or above it, where the candidates are integers.
  have hle : i ≤ (Nat.toDigits 10 n).length := by
    by_contra hlt
    have hmem : (Nat.toDigits 10 n).length ∈ before := by
      have hlen : before.length = i := by
        have hget : (List.range 22)[before.length]? = some i := by rw [hrange]; simp
        rw [List.getElem?_range] at hget
        · exact Option.some.inj hget
        · have := congrArg List.length hrange
          simp at this
          omega
      have hget : (List.range 22)[(Nat.toDigits 10 n).length]? = some (Nat.toDigits 10 n).length :=
        List.getElem?_range hdigits
      rw [hrange, List.getElem?_append_left (by omega)] at hget
      exact List.mem_of_getElem? hget
    obtain ⟨d, hd⟩ := hfound
    rw [hnone _ hmem] at hd
    cases hd
  have hmem := List.mem_of_find?_eq_some hi
  have hnear : nearestDouble c = n := by simpa using List.find?_some hi
  rw [htop, ← Nat.cast_sub hle] at hmem
  obtain ⟨m, rfl⟩ := natCast_of_mem_decimalsAround hmem
  by_cases hzero : m = 0
  · subst hzero
    rw [Nat.cast_zero, nearestDouble_zero] at hnear
    rw [← hnear, Nat.cast_zero]
  by_cases hsmall : m < 2 ^ 53
  · rw [nearestDouble_natCast (Nat.pos_of_ne_zero hzero) hsmall] at hnear
    exact hnear
  · have hlarge := le_nearestDouble (x := (m : ℚ)) (by exact_mod_cast not_lt.mp hsmall)
    rw [hnear] at hlarge
    exact absurd h (not_lt.mpr (by exact_mod_cast hlarge))

theorem toDouble_natCast {n : Nat} (h : n < 2 ^ 53) : toDouble n = .finite n := by
  unfold toDouble
  by_cases hzero : n = 0
  · subst hzero
    simp
  · have hpos := Nat.pos_of_ne_zero hzero
    have hbound : ¬ power 2 1024 ≤ (n : ℚ) := by
      rw [not_le, show (1024 : Int) = ((1024 : Nat) : Int) from rfl, power_natCast]
      exact lt_trans (by exact_mod_cast h) (pow_lt_pow_right₀ (by norm_num) (by norm_num) : (2 : ℚ) ^ 53 < ((2 : Nat) : ℚ) ^ 1024)
    rw [if_neg (by exact_mod_cast hzero), abs_of_nonneg (Nat.cast_nonneg n), nearestDouble_natCast hpos h,
      if_neg hbound, if_neg (not_lt.mpr (Nat.cast_nonneg n)), shortestDecimal_natCast hpos h]

example : toDouble (1 / 3) = .finite (3333333333333333 / 10 ^ 16) := by decide +kernel

example : toDouble (10 ^ 400) = .infinity false := by decide +kernel

end Premise.Js
