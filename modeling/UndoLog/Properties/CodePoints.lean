import UndoLog.Canonical.TypeScript
import UndoLog.Properties.RoundTrip

/-!
# TypeScript and Python canonicalise alike

Escaping and sorting by code units gives what escaping and sorting by code points gives. An
integer may be a number of TypeScript as long as it is safe; then its double is printed with
the digits of the integer.
-/

namespace UndoLog.Canonical

open Text

/-! ## Integers among the doubles -/

theorem numeral_magnitude {digits : List Char} (hdigits : ∀ c ∈ digits, c.isDigit = true)
    (hfirst : ∃ c rest, digits = c :: rest ∧ c ≠ '0') : numeral (magnitude digits) = digits := by
  induction digits using List.reverseRecOn with
  | nil =>
    obtain ⟨c, rest, heq, -⟩ := hfirst
    cases heq
  | append_singleton digits d ih =>
    have hd := isDigit_range (hdigits d (by simp))
    have hchar : Nat.digitChar (d.toNat - 48) = d := by
      apply Char.toNat_inj.mp
      rw [Nat.toNat_digitChar_of_lt_ten (by omega)]
      omega
    rw [magnitude_snoc]
    cases digits with
    | nil =>
      have hzero : magnitude [] = 0 := rfl
      rw [hzero, Nat.mul_zero, Nat.zero_add, numeral, Nat.toDigits_of_lt_base (by omega), hchar]
      rfl
    | cons c rest =>
      obtain ⟨c', rest', heq, hc⟩ := hfirst
      rw [List.cons_append, List.cons.injEq] at heq
      have hne : c ≠ '0' := heq.1 ▸ hc
      have hrest := ih (fun e he => hdigits e (List.mem_append_left _ he)) ⟨c, rest, rfl, hne⟩
      have hpos : 1 ≤ magnitude (c :: rest) :=
        le_trans (Nat.one_le_pow _ _ (by decide)) (le_magnitude (hdigits c (by simp)) hne)
      have hmod : (10 * magnitude (c :: rest) + (d.toNat - 48)) % 10 = d.toNat - 48 := by omega
      have hdiv : (10 * magnitude (c :: rest) + (d.toNat - 48)) / 10 = magnitude (c :: rest) := by
        omega
      rw [numeral, Nat.toDigits_of_base_le (by omega) (by omega), hmod, hdiv, hchar]
      exact congrArg (· ++ [d]) hrest

theorem magnitude_mod_ten (d : Decimal) : magnitude d.digits % 10 ≠ 0 := by
  have hlast := d.last
  have hdigits := d.isDigit
  have hlength := d.length_pos
  revert hlast hdigits hlength
  generalize d.digits = digits
  intro hlast hdigits hlength
  induction digits using List.reverseRecOn with
  | nil => cases hlength
  | append_singleton digits c _ =>
    have hc := isDigit_range (hdigits c (by simp))
    rw [List.getLast?_concat] at hlast
    have hne : c.toNat ≠ 48 := fun heq => hlast (congrArg some (Char.toNat_inj.mp heq))
    rw [magnitude_snoc]
    omega

theorem digits_of_natural {d : Decimal} {n : ℕ} (h : d.abs = n) :
    0 ≤ d.exponent ∧ d.digits.length ≤ d.exponent.toNat + 1 ∧
      d.digits ++ List.replicate (d.exponent.toNat + 1 - d.digits.length) '0' = numeral n := by
  obtain ⟨hlow, hhigh⟩ := d.bounds
  rw [h] at hlow hhigh
  have hten : (1 : ℚ) < 10 := by norm_num
  have hpos : 0 < n := by
    have hcast : (0 : ℚ) < n := lt_of_lt_of_le (by positivity) hlow
    exact_mod_cast hcast
  have hexponent : 0 ≤ d.exponent := by
    by_contra hneg
    have hle : (10 : ℚ) ^ (d.exponent + 1) ≤ 10 ^ (0 : ℤ) :=
      (zpow_le_zpow_iff_right₀ hten).mpr (by omega)
    have hone : (1 : ℚ) ≤ n := by exact_mod_cast hpos
    rw [zpow_zero] at hle
    linarith
  have hlength : d.digits.length ≤ d.exponent.toNat + 1 := by
    by_contra hlong
    have hdigits : magnitude d.digits = n * 10 ^ (d.digits.length - (d.exponent.toNat + 1)) := by
      have hcast : (magnitude d.digits : ℚ) =
          n * 10 ^ (d.digits.length - (d.exponent.toNat + 1)) := by
        rw [← h, Decimal.abs, mul_assoc, ← zpow_natCast, ← zpow_add₀ (by norm_num)]
        have hzero : d.exponent + 1 - d.digits.length +
            ((d.digits.length - (d.exponent.toNat + 1) : ℕ) : ℤ) = 0 := by omega
        rw [hzero, zpow_zero, mul_one]
      exact_mod_cast hcast
    obtain ⟨j, hj⟩ : ∃ j, d.digits.length - (d.exponent.toNat + 1) = j + 1 :=
      ⟨d.digits.length - (d.exponent.toNat + 1) - 1, by omega⟩
    rw [hj, pow_succ, ← mul_assoc] at hdigits
    have hmod := magnitude_mod_ten d
    omega
  refine ⟨hexponent, hlength, ?_⟩
  have hvalue : magnitude (d.digits ++
      List.replicate (d.exponent.toNat + 1 - d.digits.length) '0') = n := by
    have hcast : (magnitude (d.digits ++
        List.replicate (d.exponent.toNat + 1 - d.digits.length) '0') : ℚ) = n := by
      rw [magnitude_append_zeros, ← h, Decimal.abs]
      push_cast
      rw [← zpow_natCast]
      congr 2
      omega
    exact_mod_cast hcast
  have hwhole := (whole_digits d).append d.head_ne_zero
    (isDigit_replicate (d.exponent.toNat + 1 - d.digits.length))
  obtain ⟨c, rest, hdigits, hzero⟩ := d.first
  rw [← hvalue, numeral_magnitude hwhole.isDigit]
  exact ⟨c, _, by rw [hdigits, List.cons_append], hzero⟩

theorem numberToString_integer {d : Decimal} {i : ℤ} (h : d.value = i)
    (hi : i.natAbs < 10 ^ 21) : numberToString d = integer i := by
  obtain ⟨hlow, -⟩ := d.bounds
  have hpos : 0 < d.abs := lt_of_lt_of_le (by positivity) hlow
  have hsign : d.negative = decide (i < 0) ∧ d.abs = i.natAbs := by
    unfold Decimal.value at h
    cases hneg : d.negative with
    | true =>
      rw [hneg, if_pos rfl] at h
      have hlt : i < 0 := by
        have hcast : (i : ℚ) < 0 := by linarith
        exact_mod_cast hcast
      have habs : (i.natAbs : ℤ) = -i := by omega
      refine ⟨(decide_eq_true hlt).symm, ?_⟩
      rw [← Int.cast_natCast, habs, Int.cast_neg, ← h, neg_neg]
    | false =>
      rw [hneg, if_neg (by decide)] at h
      have hge : ¬i < 0 := by
        have hcast : (0 : ℚ) < i := by linarith
        have hint : 0 < i := by exact_mod_cast hcast
        omega
      have habs : (i.natAbs : ℤ) = i := by omega
      refine ⟨(decide_eq_false hge).symm, ?_⟩
      rw [← Int.cast_natCast, habs, ← h]
  obtain ⟨hexponent, hlength, hdigits⟩ := digits_of_natural hsign.2
  have hrange : -6 ≤ d.exponent ∧ d.exponent < 21 := by
    refine ⟨by omega, ?_⟩
    rw [hsign.2] at hlow
    have hlt : (10 : ℚ) ^ d.exponent < 10 ^ (21 : ℤ) := lt_of_le_of_lt hlow (by exact_mod_cast hi)
    exact (zpow_lt_zpow_iff_right₀ (by norm_num)).mp hlt
  rw [numberToString_positional hrange, integer, hsign.1, positional, if_neg (by omega),
    if_pos hlength, hdigits]

/-! ## Values of both languages -/

/-- The numbers of a value that both languages have: a safe integer, given as a number in
TypeScript, an integer of any size, given as a big integer, or a float. -/
inductive SharedNumber where
  | safe (i : {i : ℤ // i.natAbs < 0x20000000000000})
  | big (i : ℤ)
  | float (x : FiniteF64)

/-- The number in Python. -/
def SharedNumber.python : SharedNumber → Python.Number
  | .safe i | .big i => .int i
  | .float x => .float x

/-- The number in TypeScript. -/
def SharedNumber.typeScript (L : FloatLibrary) : SharedNumber → TypeScript.Number
  | .safe i => .number (L.read (i : ℤ))
  | .big i => .bigint i
  | .float x => .number x

theorem numberText_shared (L : FloatLibrary) (n : SharedNumber) :
    TypeScript.numberText L (n.typeScript L) = Python.numberText L n.python := by
  cases n with
  | safe i =>
    obtain ⟨i, hi⟩ := i
    change floatText numberToString L (L.read (i : ℤ)) = integer i
    unfold floatText
    by_cases hzero : i = 0
    · subst hzero
      rw [Int.cast_zero, if_pos L.read_zero]
      rfl
    · obtain ⟨hnonzero, hvalue⟩ := L.read_integer i hzero hi
      rw [hnonzero, if_neg (by decide)]
      exact numberToString_integer hvalue (by omega)
  | big i => rfl
  | float x =>
    change floatText numberToString L x = floatText Python.es6Float L x
    unfold floatText
    rw [Python.es6Float_eq]

theorem canonicalJson_typeScript (L : FloatLibrary) (v : Value (List Char) SharedNumber) :
    TypeScript.canonicalJson L (v.map utf16 (SharedNumber.typeScript L)) =
      (Python.style L).print (v.map id SharedNumber.python) := by
  have hall : v.All (Value.AllKeys fun _ => True) (fun _ => True) fun _ => True :=
    Value.all_of_forall (fun _ _ _ => trivial) (fun _ => trivial) (fun _ => trivial) v
  -- both texts are that of the value in a style of its own
  let S : Style (List Char) SharedNumber :=
    { key := Python.escapeJsonString, string := Python.escapeJsonString,
      number := fun n => Python.numberText L n.python, le := (Python.style L).le }
  have hpython : (Python.style L).print (v.map id SharedNumber.python) = S.print v :=
    S.print_map (Python.style L) id _ (fun _ _ => rfl) (fun _ _ => rfl) (fun _ _ => rfl)
      (fun _ _ _ _ => rfl) v hall
  have htypeScript : (TypeScript.style L).print (v.map utf16 (SharedNumber.typeScript L)) =
      S.print v :=
    S.print_map (TypeScript.style L) utf16 _ (fun k _ => TypeScript.escapeJsonString_utf16 k)
      (fun s _ => TypeScript.escapeJsonString_utf16 s) (fun n _ => numberText_shared L n)
      (fun k l _ _ => TypeScript.le_utf16 L k l) v hall
  exact htypeScript.trans hpython.symm

/-- TypeScript and Python write the same text for every value whose integers Python can
write, and they sort all keys alike. -/
theorem typeScript_agrees_iff (P : Python.Interpreter) (L : FloatLibrary)
    (v : Value (List Char) SharedNumber) :
    (Python.canonicalJson P L (v.map id SharedNumber.python) =
        .ok (TypeScript.canonicalJson L (v.map utf16 (SharedNumber.typeScript L))) ↔
      Python.Fits P (v.map id SharedNumber.python)) ∧
    ∀ a b : List Char, (TypeScript.compareByCodePoint (utf16 a) (utf16 b) < 0 ↔ a < b) ∧
      (TypeScript.compareByCodePoint (utf16 a) (utf16 b) = 0 ↔ a = b) := by
  refine ⟨?_, TypeScript.compareByCodePoint_utf16⟩
  rw [Python.canonicalJson_eq_ok_iff]
  exact and_iff_left (canonicalJson_typeScript L v)

/-- A big integer with more digits than the limit that an interpreter starts with. -/
def hugeBigint : Value (List Char) SharedNumber :=
  .number (.big (10 ^ Python.Interpreter.initial.maxStrDigits))

/-- TypeScript writes the digits of a big integer that Python refuses to write. -/
theorem hugeBigint_disagrees : Python.canonicalJson Python.Interpreter.initial FloatLibrary.standard
        (hugeBigint.map id SharedNumber.python) ≠
      .ok (TypeScript.canonicalJson FloatLibrary.standard
        (hugeBigint.map utf16 (SharedNumber.typeScript FloatLibrary.standard))) := by
  intro h
  have hfits := ((Python.canonicalJson_eq_ok_iff _ _ _ _).mp h).1
  exact Python.not_fits_pow (by decide) hfits

end UndoLog.Canonical
