import Mathlib.Data.Fintype.EquivFin
import Mathlib.Data.Fintype.Lattice
import UndoLog.Canonical.Encoders
import UndoLog.Text.Rounding

/-!
# Doubles of the standard

The value of a double by its sign, exponent and fraction, and the library of the standard:
printing takes at most seventeen digits near the value, and reading takes the nearest double.
-/

namespace UndoLog

variable {x y : FiniteF64}

namespace FiniteF64

/-- The fraction bits. -/
def fraction (x : FiniteF64) : ℕ := x.bits.toNat % 0x10000000000000

/-- The exponent bits. -/
def exponent (x : FiniteF64) : ℕ := x.bits.toNat / 0x10000000000000 % 0x800

/-- The sign bit. -/
def negative (x : FiniteF64) : Bool := 0x8000000000000000 ≤ x.bits.toNat

/-- The significand, with the leading bit that normal numbers do not store. -/
def significand (x : FiniteF64) : ℕ :=
  if x.exponent = 0 then x.fraction else 0x10000000000000 + x.fraction

/-- The power of two of the last bit of the significand. -/
def scale (x : FiniteF64) : ℤ := if x.exponent = 0 then -1074 else x.exponent - 1075

/-- The absolute value. -/
def absValue (x : FiniteF64) : ℚ := x.significand * 2 ^ x.scale

/-- The value. -/
def value (x : FiniteF64) : ℚ := if x.negative then -x.absValue else x.absValue

theorem significand_lt (x : FiniteF64) : x.significand < 2 ^ 53 := by
  have hfraction : x.fraction < 0x10000000000000 := Nat.mod_lt _ (by decide)
  unfold significand
  split <;> omega

theorem absValue_nonneg (x : FiniteF64) : 0 ≤ x.absValue := by
  unfold absValue
  positivity

theorem toNat_bits (x : FiniteF64) : x.bits.toNat =
    (if x.negative then 0x8000000000000000 else 0) + x.exponent * 0x10000000000000 +
      x.fraction := by
  have hlt := x.bits.isLt
  unfold negative exponent fraction
  split <;> next hneg => simp only [decide_eq_true_eq] at hneg; omega

theorem isZero_iff (x : FiniteF64) : x.isZero = true ↔ x.significand = 0 := by
  have hzero : x.isZero = true ↔ x.bits.toNat % 0x8000000000000000 = 0 := by
    rw [isZero, beq_iff_eq, ← BitVec.toNat_inj, BitVec.extractLsb'_toNat]
    rfl
  have hbits := x.toNat_bits
  have hfraction : x.fraction < 0x10000000000000 := Nat.mod_lt _ (by decide)
  have hexponent : x.exponent < 0x800 := Nat.mod_lt _ (by decide)
  rw [hzero, hbits]
  unfold significand
  split <;> split <;> omega

theorem absValue_eq_zero_iff (x : FiniteF64) : x.absValue = 0 ↔ x.isZero = true := by
  rw [isZero_iff, absValue, mul_eq_zero, Nat.cast_eq_zero]
  exact or_iff_left (zpow_ne_zero _ (by norm_num))

theorem absValue_pos (hx : x.isZero = false) : 0 < x.absValue := by
  refine lt_of_le_of_ne x.absValue_nonneg fun hzero => ?_
  rw [(absValue_eq_zero_iff x).mp hzero.symm] at hx
  cases hx

theorem abs_value (x : FiniteF64) : |x.value| = x.absValue := by
  unfold value
  split
  · rw [abs_neg, abs_of_nonneg x.absValue_nonneg]
  · exact abs_of_nonneg x.absValue_nonneg

theorem value_eq_zero_iff (x : FiniteF64) : x.value = 0 ↔ x.isZero = true := by
  rw [← absValue_eq_zero_iff, ← abs_value, abs_eq_zero]

theorem ext_fields (hnegative : x.negative = y.negative)
    (hexponent : x.exponent = y.exponent) (hfraction : x.fraction = y.fraction) : x = y := by
  have hnat : x.bits.toNat = y.bits.toNat := by
    rw [toNat_bits, toNat_bits, hnegative, hexponent, hfraction]
  have hbits := BitVec.toNat_inj.mp hnat
  cases x
  cases y
  congr

theorem eq_mul_of_scaled {m n : ℕ} {s t : ℤ} (hst : s ≤ t) (h : (m : ℚ) * 2 ^ s = n * 2 ^ t) :
    m = n * 2 ^ (t - s).toNat := by
  have hunit : (2 : ℚ) ^ s ≠ 0 := zpow_ne_zero _ (by norm_num)
  rw [Text.mul_two_zpow n hst] at h
  exact_mod_cast mul_right_cancel₀ hunit h

theorem scale_ge (x : FiniteF64) : -1074 ≤ x.scale := by
  unfold scale
  split <;> omega

theorem normal_of_scale (h : -1074 < x.scale) : 2 ^ 52 ≤ x.significand := by
  unfold scale at h
  unfold significand
  split
  · next hzero =>
    rw [if_pos hzero] at h
    omega
  · omega

theorem scale_le_of_absValue_eq (h : x.absValue = y.absValue) : y.scale ≤ x.scale := by
  by_contra hlt
  have hmul := eq_mul_of_scaled (by omega : x.scale ≤ y.scale) h
  have hnormal := normal_of_scale (by have := x.scale_ge; omega : -1074 < y.scale)
  have hbound := x.significand_lt
  obtain ⟨k, hk⟩ : ∃ k, (y.scale - x.scale).toNat = k + 1 :=
    ⟨(y.scale - x.scale).toNat - 1, by omega⟩
  have hpow : 1 ≤ 2 ^ k := Nat.one_le_two_pow
  have hle : y.significand * 1 ≤ y.significand * 2 ^ k := Nat.mul_le_mul_left _ hpow
  rw [hk, pow_succ, ← mul_assoc] at hmul
  omega

theorem fields_of_absValue_eq (h : x.absValue = y.absValue) :
    x.exponent = y.exponent ∧ x.fraction = y.fraction := by
  have hscale := le_antisymm (scale_le_of_absValue_eq h.symm) (scale_le_of_absValue_eq h)
  have hsignificand : x.significand = y.significand := by
    have hmul := eq_mul_of_scaled hscale.le h
    rwa [hscale, sub_self, Int.toNat_zero, pow_zero, mul_one] at hmul
  have hx : x.fraction < 0x10000000000000 := Nat.mod_lt _ (by decide)
  have hy : y.fraction < 0x10000000000000 := Nat.mod_lt _ (by decide)
  unfold scale at hscale
  unfold significand at hsignificand
  split at hscale <;> split at hscale <;> simp only [*, if_true, if_false] at hsignificand <;> omega

/-- Doubles of one sign are as far apart as their absolute values, and others further. -/
theorem distance_cases (x y : FiniteF64) :
    (x.negative = y.negative ∧ |x.value - y.value| = |x.absValue - y.absValue|) ∨
      |x.value - y.value| = x.absValue + y.absValue := by
  have hx := x.absValue_nonneg
  have hy := y.absValue_nonneg
  unfold value
  cases x.negative <;> cases y.negative
  · exact .inl ⟨rfl, rfl⟩
  · exact .inr (by rw [if_pos rfl, if_neg (by simp), sub_neg_eq_add, abs_of_nonneg (by linarith)])
  · exact .inr
      (by rw [if_pos rfl, if_neg (by simp), ← neg_add', abs_neg, abs_of_nonneg (by linarith)])
  · exact .inl ⟨rfl, by rw [if_pos rfl, if_pos rfl, neg_sub_neg, abs_sub_comm]⟩

theorem eq_of_value_eq (hx : x.isZero = false) (h : x.value = y.value) : x = y := by
  rcases distance_cases x y with ⟨hnegative, hsame⟩ | hsum
  · rw [h, sub_self, abs_zero, eq_comm, abs_eq_zero, sub_eq_zero] at hsame
    obtain ⟨hexponent, hfraction⟩ := fields_of_absValue_eq hsame
    exact ext_fields hnegative hexponent hfraction
  · rw [h, sub_self, abs_zero] at hsum
    linarith [absValue_pos hx, y.absValue_nonneg]

theorem value_gap (h : x.value ≠ y.value) : x.absValue ≤ 2 ^ 53 * |x.value - y.value| := by
  rcases distance_cases x y with ⟨hnegative, hsame⟩ | hsum
  · rw [hsame]
    refine Text.binary_gap x.significand_lt y.significand_lt fun heq => h ?_
    rw [value, value, hnegative, absValue, absValue, heq]
  · rw [hsum]
    linarith [x.absValue_nonneg, y.absValue_nonneg]

/-! ## Reading -/

instance : Finite FiniteF64 :=
  Finite.of_injective (fun x => x.bits.toFin) fun x y h => by
    have hbits := BitVec.toFin_inj.mp h
    cases x
    cases y
    congr

instance : Nonempty FiniteF64 := ⟨⟨0#64, by decide⟩⟩

theorem exists_nearest (q : ℚ) : ∃ x : FiniteF64, ∀ y : FiniteF64, |q - x.value| ≤ |q - y.value| :=
  Finite.exists_min fun x : FiniteF64 => |q - x.value|

/-- A double nearest to a number. -/
noncomputable def nearest (q : ℚ) : FiniteF64 := Classical.choose (exists_nearest q)

theorem nearest_le (q : ℚ) (y : FiniteF64) : |q - (nearest q).value| ≤ |q - y.value| :=
  Classical.choose_spec (exists_nearest q) y

theorem value_nearest_of (x : FiniteF64) {q : ℚ} (hx : x.value = q) : (nearest q).value = q := by
  have hle := nearest_le q x
  rw [hx, sub_self, abs_zero] at hle
  have hzero := abs_eq_zero.mp (le_antisymm hle (abs_nonneg _))
  linarith

theorem nearest_eq {q : ℚ} (hx : x.isZero = false)
    (hnear : 2 * 2 ^ 53 * |q - x.value| < x.absValue) : nearest q = x := by
  by_contra hne
  have hvalue : x.value ≠ (nearest q).value := fun heq => hne (eq_of_value_eq hx heq).symm
  have hgap := value_gap hvalue
  have hle := nearest_le q x
  have htriangle := abs_sub_le x.value q (nearest q).value
  rw [abs_sub_comm x.value q] at htriangle
  linarith

/-! ## Printing -/

/-- The digits of the double of a nonzero number: seventeen of them or less, near its value. -/
theorem exists_digits (x : FiniteF64) (hx : x.isZero = false) :
    ∃ d : Canonical.Double, d.negative = x.negative ∧
      2 * 10 ^ 16 * |d.abs - x.absValue| ≤ x.absValue ∧
      ∀ n : ℕ, n < 10 ^ 17 → x.absValue = n → d.abs = x.absValue := by
  obtain ⟨d, hlength, hnear, hexact⟩ := Text.exists_decimal_near (absValue_pos hx) 16
  exact ⟨⟨{ d with negative := x.negative }, hlength⟩, rfl, hnear, hexact⟩

/-! ## Integers -/

/-- The double of a sign, an exponent and a fraction. -/
def ofFields (negative : Bool) (exponent fraction : ℕ) (hexponent : exponent < 0x7ff)
    (hfraction : fraction < 0x10000000000000) : FiniteF64 where
  bits := BitVec.ofNat 64
    ((if negative then 0x8000000000000000 else 0) + exponent * 0x10000000000000 + fraction)
  finite := by
    intro heq
    have hnat := congrArg BitVec.toNat heq
    rw [BitVec.extractLsb'_toNat, BitVec.toNat_ofNat, BitVec.toNat_allOnes,
      Nat.shiftRight_eq_div_pow] at hnat
    cases negative <;> simp only [if_true, if_false, Bool.false_eq_true] at hnat <;> omega

theorem toNat_ofFields (negative : Bool) (exponent fraction : ℕ) (hexponent : exponent < 0x7ff)
    (hfraction : fraction < 0x10000000000000) :
    (ofFields negative exponent fraction hexponent hfraction).bits.toNat =
      (if negative then 0x8000000000000000 else 0) + exponent * 0x10000000000000 + fraction := by
  change (BitVec.ofNat 64 _).toNat = _
  rw [BitVec.toNat_ofNat]
  cases negative <;> simp only [if_true, if_false, Bool.false_eq_true] <;> omega

theorem exists_value (n : ℤ) (hn : n ≠ 0) (hbound : n.natAbs < 2 ^ 53) :
    ∃ x : FiniteF64, x.value = n := by
  have hpos : n.natAbs ≠ 0 := by omega
  obtain ⟨k, hk⟩ : ∃ k, k = Nat.log2 n.natAbs := ⟨_, rfl⟩
  have hlow : 2 ^ k ≤ n.natAbs := hk ▸ Nat.log2_self_le hpos
  have hhigh : n.natAbs < 2 ^ (k + 1) := hk ▸ Nat.lt_log2_self
  have hksmall : k ≤ 52 := by
    have hlt := Nat.pow_lt_pow_iff_right (a := 2) (by omega) |>.mp (hlow.trans_lt hbound)
    omega
  obtain ⟨m, hm⟩ : ∃ m, m = n.natAbs * 2 ^ (52 - k) := ⟨_, rfl⟩
  have hsplit : 2 ^ k * 2 ^ (52 - k) = 2 ^ 52 := by
    rw [← pow_add]
    congr 1
    omega
  have hmlow : 2 ^ 52 ≤ m := by
    rw [hm, ← hsplit]
    exact Nat.mul_le_mul_right _ hlow
  have hmhigh : m < 2 ^ 53 := by
    have hlt := Nat.mul_lt_mul_of_pos_right hhigh (Nat.two_pow_pos (52 - k))
    rw [pow_succ, mul_right_comm, hsplit] at hlt
    omega
  obtain ⟨x, hx⟩ : ∃ x, x = ofFields (n < 0) (1023 + k) (m - 2 ^ 52) (by omega) (by omega) :=
    ⟨_, rfl⟩
  have hbits := toNat_ofFields (n < 0) (1023 + k) (m - 2 ^ 52) (by omega) (by omega)
  rw [← hx] at hbits
  have hfraction : x.fraction = m - 2 ^ 52 := by
    unfold fraction
    rw [hbits]
    split <;> omega
  have hexponent : x.exponent = 1023 + k := by
    unfold exponent
    rw [hbits]
    split <;> omega
  have hnegative : x.negative = decide (n < 0) := by
    unfold negative
    rw [hbits]
    by_cases hneg : n < 0
    · simp only [hneg, decide_true, if_true, decide_eq_true_eq]
      omega
    · simp only [hneg, decide_false, Bool.false_eq_true, if_false, decide_eq_false_iff_not]
      omega
  have habs : x.absValue = n.natAbs := by
    have hsignificand : x.significand = m := by
      rw [significand, if_neg (by omega), hfraction]
      omega
    have hscale : x.scale = k - 52 := by
      rw [scale, if_neg (by omega), hexponent]
      omega
    rw [absValue, hsignificand, hscale, hm]
    push_cast
    rw [mul_assoc, ← zpow_natCast, ← zpow_add₀ (by norm_num)]
    have hzero : ((52 - k : ℕ) : ℤ) + (k - 52) = 0 := by omega
    rw [hzero, zpow_zero, mul_one]
  refine ⟨x, ?_⟩
  rw [value, hnegative, habs, Text.signed_natAbs]

end FiniteF64

namespace Canonical

open FiniteF64 Text

/-- The decimal number one. -/
def oneDigit : Double where
  negative := false
  digits := ['1']
  exponent := 0
  isDigit := by simp
  first := ⟨'1', [], rfl, by decide⟩
  last := by decide
  short := by decide

/-- The digits of a nonzero double. -/
noncomputable def standardDigits (x : FiniteF64) : Double :=
  if hx : x.isZero = false then Classical.choose (x.exists_digits hx) else oneDigit

theorem standardDigits_spec (hx : x.isZero = false) :
    (standardDigits x).negative = x.negative ∧
      2 * 10 ^ 16 * |(standardDigits x).abs - x.absValue| ≤ x.absValue ∧
      ∀ n : ℕ, n < 10 ^ 17 → x.absValue = n → (standardDigits x).abs = x.absValue := by
  rw [standardDigits, dif_pos hx]
  exact Classical.choose_spec (x.exists_digits hx)

theorem distance_value {d : Decimal} (h : d.negative = x.negative) :
    |d.value - x.value| = |d.abs - x.absValue| := by
  unfold Decimal.value FiniteF64.value
  rw [h]
  split
  · rw [neg_sub_neg, abs_sub_comm]
  · rfl

/-- The library of the standard. -/
noncomputable def FloatLibrary.standard : FloatLibrary where
  digits := standardDigits
  read := nearest
  read_digits := by
    intro x hx
    obtain ⟨hsign, hnear, -⟩ := standardDigits_spec hx
    refine nearest_eq hx ?_
    have hpos := absValue_pos hx
    rw [distance_value hsign]
    linarith
  read_zero := by
    have hzero : value ⟨0#64, by decide⟩ = 0 := (value_eq_zero_iff _).mpr (by decide)
    exact (value_eq_zero_iff _).mp (value_nearest_of _ hzero)
  read_integer := by
    intro n hn hbound
    obtain ⟨x, hx⟩ := exists_value n hn hbound
    have hvalue : (nearest (n : ℚ)).value = n := value_nearest_of x hx
    have hzero : (nearest (n : ℚ)).isZero = false := by
      by_contra hnot
      have hnil := (value_eq_zero_iff _).mpr (Bool.not_eq_false _ ▸ hnot)
      rw [hvalue] at hnil
      exact hn (by exact_mod_cast hnil)
    obtain ⟨hsign, -, hexact⟩ := standardDigits_spec hzero
    have habs : (nearest (n : ℚ)).absValue = n.natAbs := by
      rw [← abs_value, hvalue, Nat.cast_natAbs, Int.cast_abs]
    have hdigits := hexact n.natAbs (by omega) habs
    refine ⟨hzero, ?_⟩
    have hdistance := distance_value hsign
    rw [hdigits, sub_self, abs_zero, abs_eq_zero, hvalue] at hdistance
    linarith

end Canonical

end UndoLog
