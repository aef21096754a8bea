import Mathlib.Algebra.Order.Archimedean.Basic
import UndoLog.Text.Decimal

/-!
# Decimal numbers near binary numbers

A binary number with a significand of `p` bits is far from every other one, relative to its
size, and every positive number is near a decimal number with few digits. So enough digits
tell a binary number from all others.
-/

namespace Text

/-! ## Binary numbers -/

/-- Two different natural numbers, one of them small, are far apart for their size. -/
theorem le_mul_distance {bound a b : ℤ} (hbound : 0 < bound) (hne : a ≠ b)
    (hsmall : a < bound ∨ b < bound) : a ≤ bound * |a - b| := by
  have hone : 1 ≤ |a - b| := Int.one_le_abs (sub_ne_zero.mpr hne)
  by_cases hlt : a < bound
  · nlinarith
  · nlinarith [le_abs_self (a - b), hsmall.resolve_left hlt]

/-- A power of two as a multiple of a smaller one. -/
theorem mul_two_zpow (m : ℕ) {s t : ℤ} (h : s ≤ t) :
    (m : ℚ) * 2 ^ t = ((m * 2 ^ (t - s).toNat : ℕ) : ℤ) * 2 ^ s := by
  push_cast
  rw [mul_assoc, ← zpow_natCast, ← zpow_add₀ (by norm_num)]
  congr 2
  omega

/-- Binary numbers of `p` bits are far apart for their size. -/
theorem binary_gap {p m n : ℕ} (hm : m < 2 ^ p) (hn : n < 2 ^ p) {s t : ℤ}
    (hne : (m : ℚ) * 2 ^ s ≠ n * 2 ^ t) :
    (m : ℚ) * 2 ^ s ≤ 2 ^ p * |(m : ℚ) * 2 ^ s - n * 2 ^ t| := by
  have hunit : (0 : ℚ) < 2 ^ min s t := by positivity
  rw [mul_two_zpow m (min_le_left s t), mul_two_zpow n (min_le_right s t)] at hne ⊢
  have hint : ((m * 2 ^ (s - min s t).toNat : ℕ) : ℤ) ≤ 2 ^ p *
      |((m * 2 ^ (s - min s t).toNat : ℕ) : ℤ) - (n * 2 ^ (t - min s t).toNat : ℕ)| := by
    refine le_mul_distance (by positivity) (fun heq => hne (by rw [heq])) ?_
    -- the number with the smaller exponent is its own significand
    rcases le_total s t with hle | hle
    · left
      rw [min_eq_left hle, sub_self, Int.toNat_zero, pow_zero, mul_one]
      exact_mod_cast hm
    · right
      rw [min_eq_right hle, sub_self, Int.toNat_zero, pow_zero, mul_one]
      exact_mod_cast hn
  have hcast : (((m * 2 ^ (s - min s t).toNat : ℕ) : ℤ) : ℚ) ≤ 2 ^ p *
      |(((m * 2 ^ (s - min s t).toNat : ℕ) : ℤ) : ℚ) -
        ((n * 2 ^ (t - min s t).toNat : ℕ) : ℤ)| := by
    exact_mod_cast hint
  rw [← sub_mul, abs_mul, abs_of_pos hunit, ← mul_assoc]
  exact mul_le_mul_of_nonneg_right hcast hunit.le

/-! ## Decimal numbers -/

/-- The numeral of a number that ten does not divide does not end in a zero. -/
theorem getLast_numeral {n : ℕ} (hn : n % 10 ≠ 0) : (numeral n).getLast? ≠ some '0' := by
  have hdigit : Nat.digitChar (n % 10) ≠ '0' := fun heq => hn (Nat.digitChar_eq_zero.mp heq)
  by_cases hlt : n < 10
  · rw [Nat.mod_eq_of_lt hlt] at hdigit
    rw [numeral, Nat.toDigits_of_lt_base hlt, List.getLast?_singleton]
    exact fun heq => hdigit (Option.some.inj heq)
  · rw [numeral, Nat.toDigits_of_base_le (by omega) (by omega), List.getLast?_concat]
    exact fun heq => hdigit (Option.some.inj heq)

/-- A positive number times a power of ten is a decimal number, with no more digits than it
needs. -/
theorem exists_decimal (p : ℕ) (hp : 0 < p) (n : ℕ) (hn : 0 < n) (hbound : n ≤ 10 ^ p) (s : ℤ) :
    ∃ d : Decimal, d.digits.length ≤ p ∧ d.abs = n * 10 ^ s := by
  induction n using Nat.strong_induction_on generalizing s with
  | _ n ih =>
    by_cases hten : n % 10 = 0
    · obtain ⟨d, hlength, habs⟩ := ih (n / 10) (by omega) (by omega) (by omega) (s + 1)
      refine ⟨d, hlength, ?_⟩
      have hnat : n = n / 10 * 10 := by omega
      have hcast : (n : ℚ) = ((n / 10 : ℕ) : ℚ) * 10 := by exact_mod_cast hnat
      rw [habs, hcast, zpow_add₀ (by norm_num), zpow_one, mul_assoc, mul_comm (10 ^ s)]
    · have hpow : n ≠ 10 ^ p := by
        rintro rfl
        obtain ⟨k, rfl⟩ : ∃ k, p = k + 1 := ⟨p - 1, by omega⟩
        rw [pow_succ] at hten
        omega
      have hlength : (numeral n).length ≤ p :=
        (Nat.length_toDigits_le_iff (by omega) hp).mpr (by omega)
      have hlast := getLast_numeral hten
      obtain ⟨c, rest, htext⟩ : ∃ c rest, numeral n = c :: rest := by
        cases htext : numeral n with
        | nil => exact absurd htext Nat.toDigits_ne_nil
        | cons c rest => exact ⟨c, rest, rfl⟩
      have hfirst : c ≠ '0' := by
        rintro rfl
        exact head_numeral hn (by rw [htext, List.head?_cons])
      refine ⟨⟨false, numeral n, s + (numeral n).length - 1, isDigit_numeral,
        ⟨c, rest, htext, hfirst⟩, hlast⟩, hlength, ?_⟩
      have hexponent : s + ((numeral n).length : ℤ) - 1 + 1 - (numeral n).length = s := by omega
      rw [Decimal.abs, magnitude_numeral, hexponent]

/-- Every positive number is near a decimal number of `p + 1` digits, and an integer of so many
digits is one. -/
theorem exists_decimal_near {q : ℚ} (hq : 0 < q) (p : ℕ) :
    ∃ d : Decimal, d.digits.length ≤ p + 1 ∧ 2 * 10 ^ p * |d.abs - q| ≤ q ∧
      ∀ n : ℕ, n < 10 ^ (p + 1) → q = n → d.abs = q := by
  obtain ⟨k, hlow, hhigh⟩ := exists_mem_Ico_zpow hq (show (1 : ℚ) < 10 by norm_num)
  -- the unit of the last digit, and the number in these units
  obtain ⟨u, hu⟩ : ∃ u : ℚ, u = 10 ^ (k - p) := ⟨_, rfl⟩
  have hunit : 0 < u := by
    rw [hu]
    positivity
  have hpow : ∀ j : ℕ, (10 : ℚ) ^ (p + j) * u = 10 ^ (k + j) := by
    intro j
    rw [hu, ← zpow_natCast, ← zpow_add₀ (by norm_num)]
    congr 1
    omega
  obtain ⟨r, hr⟩ : ∃ r, q = r * u := ⟨q / u, (div_mul_cancel₀ q hunit.ne').symm⟩
  have hrlow : (10 : ℚ) ^ p ≤ r := by
    have hle := (hpow 0).trans_le ((by simpa using hlow : (10 : ℚ) ^ (k + (0 : ℕ)) ≤ q).trans_eq hr)
    exact le_of_mul_le_mul_right hle hunit
  have hrhigh : r < (10 : ℚ) ^ (p + 1) :=
    lt_of_mul_lt_mul_right (hr.symm.trans_lt (hhigh.trans_eq (hpow 1).symm)) hunit.le
  have hround := abs_le.mp (abs_sub_round r)
  obtain ⟨m, hm⟩ : ∃ m, m = round r := ⟨_, rfl⟩
  rw [← hm] at hround
  have hmlow : (10 : ℤ) ^ p ≤ m := by
    by_contra hlt
    have hcast : (m : ℚ) ≤ 10 ^ p - 1 := by exact_mod_cast (by omega : m ≤ 10 ^ p - 1)
    linarith
  have hmhigh : m ≤ (10 : ℤ) ^ (p + 1) := by
    by_contra hlt
    have hcast : (10 : ℚ) ^ (p + 1) + 1 ≤ m := by exact_mod_cast (by omega : 10 ^ (p + 1) + 1 ≤ m)
    linarith
  obtain ⟨n, rfl⟩ : ∃ n : ℕ, m = n := Int.eq_ofNat_of_zero_le (le_trans (by positivity) hmlow)
  have hnpos : 0 < n := by
    have hpow : (0 : ℤ) < 10 ^ p := by positivity
    omega
  obtain ⟨d, hlength, habs⟩ := exists_decimal (p + 1) (by omega) n hnpos (by exact_mod_cast hmhigh)
    (k - p)
  rw [← hu] at habs
  refine ⟨d, hlength, ?_, fun i hi hqi => ?_⟩
  · have hhalf : |(n : ℚ) - r| ≤ 1 / 2 := by
      rw [abs_sub_comm]
      exact abs_le.mpr (by exact_mod_cast hround)
    calc 2 * 10 ^ p * |d.abs - q| = 2 * 10 ^ p * (|(n : ℚ) - r| * u) := by
          rw [habs, hr, ← sub_mul, abs_mul, abs_of_pos hunit]
      _ ≤ 2 * 10 ^ p * (1 / 2 * u) := by gcongr
      _ = 10 ^ p * u := by ring
      _ ≤ r * u := by gcongr
      _ = q := hr.symm
  · have hlt : (10 : ℚ) ^ k < 10 ^ ((p + 1 : ℕ) : ℤ) := by
      rw [zpow_natCast]
      calc (10 : ℚ) ^ k ≤ i := hqi ▸ hlow
        _ < 10 ^ (p + 1) := by exact_mod_cast hi
    have hk := (zpow_lt_zpow_iff_right₀ (show (1 : ℚ) < 10 by norm_num)).mp hlt
    have hint : r = ((i * 10 ^ (p - k).toNat : ℕ) : ℤ) := by
      refine mul_right_cancel₀ hunit.ne' (hr.symm.trans ?_)
      push_cast
      rw [hqi, hu, mul_assoc, ← zpow_natCast, ← zpow_add₀ (by norm_num)]
      rw [show (((p : ℤ) - k).toNat : ℤ) + (k - p) = 0 by omega, zpow_zero, mul_one]
    have hexact : (n : ℚ) = r := by
      rw [hint] at hm ⊢
      rw [round_intCast] at hm
      exact_mod_cast hm
    rw [habs, hexact, ← hr]

end Text
