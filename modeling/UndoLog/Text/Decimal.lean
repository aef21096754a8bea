import Mathlib.Algebra.Order.Field.Power
import Mathlib.Data.List.TakeWhile
import Mathlib.Tactic.Linarith
import Mathlib.Tactic.Positivity

/-!
# Decimal numerals

Texts are lists of characters. A positive or negative decimal number is given by its
significant digits, without zeros at either end, and by the power of ten of the first one.
The layouts write these digits with a decimal point, padded with zeros, or with an exponent.
-/

namespace Text

/-- The value of a string of digits. -/
abbrev magnitude (digits : List Char) : ℕ := Nat.ofDigitChars 10 digits 0

/-- The digits of a natural number. -/
abbrev numeral (n : ℕ) : List Char := Nat.toDigits 10 n

/-- A minus sign in front of a negative number. -/
def signed (negative : Bool) (text : List Char) : List Char :=
  if negative then '-' :: text else text

/-- The digits of an integer. -/
def integer (i : ℤ) : List Char := signed (i < 0) (numeral i.natAbs)

/-- A nonzero decimal number, by its significant digits and its scientific exponent. -/
structure Decimal where
  negative : Bool
  digits : List Char
  exponent : ℤ
  /-- All digits are digits. -/
  isDigit : ∀ c ∈ digits, c.isDigit = true
  /-- There is a first digit, and it is not zero. -/
  first : ∃ c rest, digits = c :: rest ∧ c ≠ '0'
  /-- The last digit is not zero. -/
  last : digits.getLast? ≠ some '0'

/-! ## Layouts -/

/-- Positional notation of a string of digits with a scientific exponent. -/
def positional (digits : List Char) (exponent : ℤ) : List Char :=
  if exponent < 0 then '0' :: '.' :: (List.replicate (-exponent - 1).toNat '0' ++ digits)
  else if digits.length ≤ exponent.toNat + 1 then
    digits ++ List.replicate (exponent.toNat + 1 - digits.length) '0'
  else digits.take (exponent.toNat + 1) ++ '.' :: digits.drop (exponent.toNat + 1)

/-- A point after the first of several digits. -/
def mantissa : List Char → List Char
  | [] => []
  | [d] => [d]
  | d :: rest => d :: '.' :: rest

/-- At least two digits. -/
def padTwo (text : List Char) : List Char := if text.length < 2 then '0' :: text else text

/-- The sign of an exponent. -/
def exponentSign (exponent : ℤ) : Char := if exponent < 0 then '-' else '+'

/-! ## Characters -/

variable {d c : Char} {digits : List Char} {n : ℕ}

theorem isDigit_ne (hc : c.isDigit = true) (hd : d.isDigit = false) : c ≠ d := by
  rintro rfl
  rw [hc] at hd
  cases hd

theorem isDigit_range (hc : c.isDigit = true) : 48 ≤ c.toNat ∧ c.toNat ≤ 57 :=
  Char.isDigit_iff_toNat.mp hc

/-- A character that is not a digit does not occur among digits. -/
theorem not_mem_of_isDigit (h : ∀ c ∈ digits, c.isDigit = true)
    (hd : d.isDigit = false) : d ∉ digits :=
  fun hmem => isDigit_ne (h d hmem) hd rfl

theorem isDigit_numeral : ∀ c ∈ numeral n, c.isDigit = true :=
  fun _ hc => Nat.isDigit_of_mem_toDigits (by omega) (by omega) hc

theorem isDigit_replicate (n : ℕ) : ∀ c ∈ List.replicate n '0', c.isDigit = true := by
  intro c hc
  rw [List.eq_of_mem_replicate hc]
  rfl

theorem head_numeral_ne (n : ℕ) (hc : c.isDigit = false) : (numeral n).head? ≠ some c := by
  intro hhead
  exact not_mem_of_isDigit isDigit_numeral hc (List.mem_of_head? hhead)

/-- The numeral of a positive number does not start with a zero. -/
theorem head_numeral (hn : 0 < n) : (numeral n).head? ≠ some '0' := by
  induction n using Nat.strong_induction_on with
  | _ n ih =>
    by_cases hlt : n < 10
    · rw [numeral, Nat.toDigits_of_lt_base hlt, List.head?_cons]
      intro hzero
      have hval := Nat.digitChar_eq_zero.mp (Option.some.inj hzero)
      omega
    · rw [numeral, Nat.toDigits_of_base_le (by omega) (by omega)]
      have hrest := ih (n / 10) (by omega) (by omega)
      rwa [List.head?_append_of_ne_nil _ Nat.toDigits_ne_nil]

/-- The numeral of a number tells the number. -/
theorem magnitude_numeral (n : ℕ) : magnitude (numeral n) = n :=
  Nat.ofDigitChars_ten_toDigits

/-- The sign of an integer in front of its size. -/
theorem signed_natAbs (i : ℤ) : (if decide (i < 0) then -(i.natAbs : ℚ) else i.natAbs) = i := by
  have hsize : (i.natAbs : ℚ) = ((i.natAbs : ℤ) : ℚ) := (Int.cast_natCast _).symm
  split
  · next hneg =>
    have habs : -(i.natAbs : ℤ) = i := by have := of_decide_eq_true hneg; omega
    rw [hsize, ← Int.cast_neg, habs]
  · next hneg =>
    have habs : (i.natAbs : ℤ) = i := by
      have := of_decide_eq_false (Bool.not_eq_true _ ▸ hneg)
      omega
    rw [hsize, habs]

/-! ## Splitting texts -/

/-- A character that does not occur before is found where it stands. -/
theorem idxOf?_append_cons {before : List Char} (hbefore : c ∉ before)
    (after : List Char) : (before ++ c :: after).idxOf? c = some before.length := by
  induction before with
  | nil => simp [List.idxOf?_cons]
  | cons d before ih =>
    have hne : d ≠ c := fun heq => hbefore (by simp [heq])
    have hrest := ih fun hmem => hbefore (List.mem_cons_of_mem _ hmem)
    simp [List.idxOf?_cons, hne, hrest]

section

variable (before : List Char) (c : Char) (after : List Char)

theorem take_append_cons : (before ++ c :: after).take before.length = before := by
  simp

theorem drop_append_cons : (before ++ c :: after).drop (before.length + 1) = after := by
  simp

theorem getElem?_append_cons : (before ++ c :: after)[before.length + 1]? = after.head? := by
  rw [List.getElem?_append_right (by omega), Nat.add_sub_cancel_left, List.head?_eq_getElem?]
  rfl

end

/-- The digits of a mantissa and its point. -/
theorem not_mem_mantissa (h : ∀ c ∈ digits, c.isDigit = true)
    (hd : d.isDigit = false) (hpoint : d ≠ '.') : d ∉ mantissa digits := by
  have hnot := not_mem_of_isDigit h hd
  unfold mantissa
  split
  · exact hnot
  · exact hnot
  · next c rest _ =>
    simp only [List.mem_cons, not_or] at hnot ⊢
    exact ⟨hnot.1, hpoint, hnot.2⟩

theorem not_mem_signed {text : List Char} (negative : Bool) (hd : d ≠ '-')
    (htext : d ∉ text) : d ∉ signed negative text := by
  unfold signed
  split
  · simp [hd, htext]
  · exact htext

theorem signed_append (negative : Bool) (before after : List Char) :
    signed negative (before ++ after) = signed negative before ++ after := by
  unfold signed
  split <;> rfl

/-- Leading zeros of a padded numeral are padding. -/
theorem dropWhile_padTwo (hn : 0 < n) : (padTwo (numeral n)).dropWhile (· = '0') = numeral n := by
  have hhead := head_numeral hn
  have hnumeral : (numeral n).dropWhile (· = '0') = numeral n := by
    cases hdigits : numeral n with
    | nil => rfl
    | cons d rest =>
      rw [hdigits] at hhead
      have hne : d ≠ '0' := fun heq => hhead (by rw [heq, List.head?_cons])
      simp [hne]
  unfold padTwo
  split
  · simpa [List.dropWhile_cons] using hnumeral
  · exact hnumeral

/-! ## The value of a decimal number -/

/-- One more digit. -/
theorem magnitude_snoc (digits : List Char) (d : Char) :
    magnitude (digits ++ [d]) = 10 * magnitude digits + (d.toNat - 48) := by
  rw [magnitude, Nat.ofDigitChars_append, Nat.ofDigitChars_cons, Nat.ofDigitChars_nil]
  rfl

/-- Digits have a value below the power of ten of their number. -/
theorem magnitude_lt (h : ∀ c ∈ digits, c.isDigit = true) :
    magnitude digits < 10 ^ digits.length := by
  induction digits using List.reverseRecOn with
  | nil => simp [magnitude]
  | append_singleton digits d ih =>
    have hd := isDigit_range (h d (by simp))
    have hdigits := ih fun c hc => h c (List.mem_append_left _ hc)
    rw [magnitude_snoc, List.length_append, List.length_singleton, pow_succ]
    omega

/-- A first digit other than zero bounds the value from below. -/
theorem le_magnitude {rest : List Char} (hd : d.isDigit = true) (hzero : d ≠ '0') :
    10 ^ rest.length ≤ magnitude (d :: rest) := by
  have hone : 1 ≤ magnitude [d] := by
    have hrange := isDigit_range hd
    have hne : d.toNat ≠ 48 := fun heq => hzero (Char.toNat_inj.mp heq)
    have hsingle := magnitude_snoc [] d
    rw [List.nil_append] at hsingle
    omega
  induction rest using List.reverseRecOn with
  | nil => simpa using hone
  | append_singleton rest c ih =>
    rw [← List.cons_append, magnitude_snoc, List.length_append, List.length_singleton, pow_succ]
    omega

namespace Decimal

/-- The absolute value of a decimal number. -/
def abs (d : Decimal) : ℚ :=
  (magnitude d.digits : ℚ) * (10 : ℚ) ^ (d.exponent + 1 - d.digits.length)

/-- The value of a decimal number. -/
def value (d : Decimal) : ℚ := if d.negative then -d.abs else d.abs

theorem length_pos (d : Decimal) : 0 < d.digits.length := by
  obtain ⟨c, rest, hdigits, -⟩ := d.first
  rw [hdigits]
  exact Nat.succ_pos _

/-- The exponent is that of the first digit. -/
theorem bounds (d : Decimal) :
    (10 : ℚ) ^ d.exponent ≤ d.abs ∧ d.abs < (10 : ℚ) ^ (d.exponent + 1) := by
  obtain ⟨c, rest, hdigits, hzero⟩ := d.first
  have hten : (0 : ℚ) < 10 ^ (d.exponent + 1 - d.digits.length) := by positivity
  have hlength : d.digits.length = rest.length + 1 := by rw [hdigits, List.length_cons]
  constructor
  · have hle : (10 : ℚ) ^ rest.length ≤ magnitude d.digits := by
      have hnat : 10 ^ rest.length ≤ magnitude d.digits := by
        rw [hdigits]
        exact le_magnitude (d.isDigit c (by rw [hdigits]; simp)) hzero
      exact_mod_cast hnat
    have hsplit : (10 : ℚ) ^ d.exponent =
        10 ^ rest.length * 10 ^ (d.exponent + 1 - d.digits.length) := by
      rw [← zpow_natCast, ← zpow_add₀ (by norm_num)]
      congr 1
      omega
    rw [hsplit]
    exact mul_le_mul_of_nonneg_right hle hten.le
  · have hlt : (magnitude d.digits : ℚ) < 10 ^ d.digits.length := by
      exact_mod_cast magnitude_lt d.isDigit
    have hsplit : (10 : ℚ) ^ (d.exponent + 1) =
        10 ^ d.digits.length * 10 ^ (d.exponent + 1 - d.digits.length) := by
      rw [← zpow_natCast, ← zpow_add₀ (by norm_num)]
      congr 1
      omega
    rw [hsplit]
    exact mul_lt_mul_of_pos_right hlt hten

/-- A range between powers of ten is a range of exponents. -/
theorem in_range_iff (d : Decimal) (low high : ℤ) :
    (10 : ℚ) ^ low ≤ d.abs ∧ d.abs < (10 : ℚ) ^ high ↔ low ≤ d.exponent ∧ d.exponent < high := by
  obtain ⟨hlow, hhigh⟩ := d.bounds
  have hone : (1 : ℚ) < 10 := by norm_num
  constructor
  · rintro ⟨hle, hlt⟩
    have hfirst := (zpow_lt_zpow_iff_right₀ hone).mp (hle.trans_lt hhigh)
    have hsecond := (zpow_lt_zpow_iff_right₀ hone).mp (hlow.trans_lt hlt)
    omega
  · rintro ⟨hle, hlt⟩
    have hfirst := (zpow_le_zpow_iff_right₀ hone).mpr hle
    have hsecond := (zpow_le_zpow_iff_right₀ hone).mpr (show d.exponent + 1 ≤ high by omega)
    exact ⟨hfirst.trans hlow, hhigh.trans_le hsecond⟩

end Decimal

end Text
