import UndoLog.Text.Decimal

/-!
# Floats as ECMAScript prints them

The three implementations start from what the formatters of their languages print for a
double and rearrange the text. The formatters agree on the shortest digits that read back
as the double and differ in the layout only, so a double is given here by these digits.
-/

namespace UndoLog.Canonical

open Text

/-- A finite nonzero double, given by the shortest digits that read back as it. Seventeen
digits are enough for every double. -/
structure Double extends Decimal where
  short : digits.length ≤ 17

/-! ## ECMAScript -/

/-- `Number::toString`: positional notation up to 21 digits before the point and up to six
zeros after it, an exponent otherwise. -/
def numberToString (d : Decimal) : List Char :=
  let k : ℤ := d.digits.length
  let n := d.exponent + 1
  signed d.negative <|
    if k ≤ n ∧ n ≤ 21 then d.digits ++ List.replicate (n - k).toNat '0'
    else if 0 < n ∧ n ≤ 21 then d.digits.take n.toNat ++ '.' :: d.digits.drop n.toNat
    else if -6 < n ∧ n ≤ 0 then '0' :: '.' :: (List.replicate (-n).toNat '0' ++ d.digits)
    else mantissa d.digits ++ 'e' :: exponentSign (n - 1) :: numeral (n - 1).natAbs

/-! ## Python -/

namespace Python

/-- `repr` of a float: an exponent of two digits or more below `1e-4` and from `1e16` on,
positional notation with a point otherwise. -/
def repr (d : Decimal) : List Char :=
  signed d.negative <|
    if d.exponent < -4 ∨ 16 ≤ d.exponent then
      mantissa d.digits ++ 'e' :: exponentSign d.exponent :: padTwo (numeral d.exponent.natAbs)
    else
      let text := positional d.digits d.exponent
      if '.' ∈ text then text else text ++ ['.', '0']

/-- `int` on a signed string of digits. -/
def int : List Char → ℤ
  | '-' :: digits => -magnitude digits
  | '+' :: digits | digits => magnitude digits

/-- What is in front of the exponent, the exponent without a leading zero, and its value. -/
def splitExponent (text : List Char) : List Char × List Char × ℤ :=
  match text.idxOf? 'e' with
  | none => (text, [], 0)
  | some q =>
    if 0 < q then
      let expStr := text.drop q
      let expStr :=
        if (expStr.drop 2).take 1 = ['0'] then expStr.take 2 ++ expStr.drop 3 else expStr
      (text.take q, expStr, int (expStr.drop 1))
    else (text, [], 0)

/-- `str.partition` at the point. -/
def partition (text : List Char) : List Char × List Char × List Char :=
  (text.takeWhile (· ≠ '.'), if '.' ∈ text then ['.'] else [], (text.dropWhile (· ≠ '.')).tail)

/-- `_es6_float` after the sign was taken off. -/
def rearrange (text : List Char) : List Char :=
  let (text, expStr, expVal) := splitExponent text
  let (first, dot, last) := partition text
  let (dot, last) := if last = ['0'] then ([], []) else (dot, last)
  if 0 < expVal ∧ expVal < 21 then
    let first := first ++ last
    first ++ List.replicate (expVal + 1 - first.length).toNat '0'
  else if -7 < expVal ∧ expVal < 0 then
    '0' :: '.' :: (List.replicate (-expVal - 1).toNat '0' ++ (first ++ last))
  else first ++ dot ++ last ++ expStr

/-- `_es6_float` on what `repr` prints. -/
def es6Text (text : List Char) : List Char :=
  match text with
  | '-' :: text => '-' :: rearrange text
  | text => rearrange text

/-- `_es6_float` on a nonzero float. -/
def es6Float (d : Decimal) : List Char := es6Text (repr d)

end Python

/-! ## Rust -/

/-- The comparison with `1e-6` and `1e21` of the Rust and Go functions. -/
def InFixedRange (d : Decimal) : Prop := (10 : ℚ) ^ (-6 : ℤ) ≤ d.abs ∧ d.abs < (10 : ℚ) ^ (21 : ℤ)

instance (d : Decimal) : Decidable (InFixedRange d) := by
  unfold InFixedRange
  infer_instance

namespace Rust

/-- The format `{}` of a float. -/
def display (d : Decimal) : List Char := signed d.negative (positional d.digits d.exponent)

/-- The format `{:e}` of a float. -/
def lowerExp (d : Decimal) : List Char :=
  signed d.negative (mantissa d.digits ++ 'e' :: integer d.exponent)

/-- `es6_format` on a nonzero float. -/
def es6Format (d : Decimal) : List Char :=
  if InFixedRange d then display d
  else
    let s := lowerExp d
    match s.idxOf? 'e' with
    | some i => if s[i + 1]? ≠ some '-' then s.take i ++ 'e' :: '+' :: s.drop (i + 1) else s
    | none => s

end Rust

/-! ## Go -/

namespace Go

/-- `FormatFloat` with format `f` and precision `-1`. -/
def formatFixed (d : Decimal) : List Char := signed d.negative (positional d.digits d.exponent)

/-- `FormatFloat` with format `e` and precision `-1`. -/
def formatExponent (d : Decimal) : List Char :=
  signed d.negative
    (mantissa d.digits ++ 'e' :: exponentSign d.exponent :: padTwo (numeral d.exponent.natAbs))

/-- `stripExponentZeros`. -/
def stripExponentZeros (s : List Char) : List Char :=
  match s.idxOf? 'e' with
  | none => s
  | some i =>
    let exp := s.drop (i + 1)
    let (sign, exp) := match exp with
      | '+' :: rest => (['+'], rest)
      | '-' :: rest => (['-'], rest)
      | rest => ([], rest)
    let exp := exp.dropWhile (· = '0')
    s.take i ++ 'e' :: (sign ++ if exp = [] then ['0'] else exp)

/-- `es6Float` on a nonzero float. -/
def es6Float (d : Decimal) : List Char :=
  if InFixedRange d then formatFixed d else stripExponentZeros (formatExponent d)

end Go

/-! ## The two notations -/

theorem inFixedRange_iff (d : Decimal) : InFixedRange d ↔ -6 ≤ d.exponent ∧ d.exponent < 21 :=
  d.in_range_iff (-6) 21

variable {d : Decimal}

theorem numberToString_positional (h : -6 ≤ d.exponent ∧ d.exponent < 21) :
    numberToString d = signed d.negative (positional d.digits d.exponent) := by
  have hpos := d.length_pos
  unfold numberToString positional
  dsimp only
  congr 1
  by_cases hneg : d.exponent < 0
  · rw [if_neg (by omega), if_neg (by omega), if_pos (by omega), if_pos hneg]
    congr 4
    omega
  · rw [if_neg hneg]
    by_cases hfew : d.digits.length ≤ d.exponent.toNat + 1
    · rw [if_pos (by omega), if_pos hfew]
      congr 2
      omega
    · have hpoint : (d.exponent + 1).toNat = d.exponent.toNat + 1 := by omega
      rw [if_neg (by omega), if_pos (by omega), if_neg hfew, hpoint]

theorem numberToString_exponent (h : ¬ (-6 ≤ d.exponent ∧ d.exponent < 21)) :
    numberToString d = signed d.negative (mantissa d.digits ++
      'e' :: exponentSign d.exponent :: numeral d.exponent.natAbs) := by
  have hpos := d.length_pos
  unfold numberToString
  dsimp only
  rw [if_neg (by omega), if_neg (by omega), if_neg (by omega), Int.add_sub_cancel]

theorem not_mem_significand (d : Decimal) : 'e' ∉ signed d.negative (mantissa d.digits) :=
  not_mem_signed _ (by decide) (not_mem_mantissa d.isDigit (by decide) (by decide))

/-! ## Rust and Go -/

theorem Rust.es6Format_eq (d : Decimal) : Rust.es6Format d = numberToString d := by
  unfold Rust.es6Format
  by_cases hrange : InFixedRange d
  · rw [if_pos hrange, numberToString_positional ((inFixedRange_iff d).mp hrange)]
    rfl
  · have hexp := mt (inFixedRange_iff d).mpr hrange
    rw [if_neg hrange, numberToString_exponent hexp]
    unfold Rust.lowerExp
    dsimp only
    rw [signed_append, signed_append, idxOf?_append_cons (not_mem_significand d)]
    dsimp only
    rw [take_append_cons, drop_append_cons, getElem?_append_cons]
    unfold integer exponentSign
    by_cases hneg : d.exponent < 0
    · simp [hneg, signed]
    · have hdigit := head_numeral_ne d.exponent.natAbs (c := '-') (by decide)
      simp only [hneg, decide_false, signed, Bool.false_eq_true, if_false]
      rw [if_pos hdigit]

theorem Go.es6Float_eq (d : Decimal) : Go.es6Float d = numberToString d := by
  unfold Go.es6Float
  by_cases hrange : InFixedRange d
  · rw [if_pos hrange, numberToString_positional ((inFixedRange_iff d).mp hrange)]
    rfl
  · have hexp := mt (inFixedRange_iff d).mpr hrange
    have hpos : 0 < d.exponent.natAbs := by omega
    rw [if_neg hrange, numberToString_exponent hexp]
    unfold Go.formatExponent Go.stripExponentZeros
    rw [signed_append, signed_append, idxOf?_append_cons (not_mem_significand d)]
    dsimp only
    rw [take_append_cons, drop_append_cons]
    unfold exponentSign
    by_cases hneg : d.exponent < 0
    · simp [hneg, dropWhile_padTwo hpos]
    · simp [hneg, dropWhile_padTwo hpos]

/-! ## Python -/

namespace Python

variable {a text : List Char}

theorem partition_append (ha : '.' ∉ a) (b : List Char) :
    partition (a ++ '.' :: b) = (a, ['.'], b) := by
  have hpass : ∀ c ∈ a, decide (c ≠ '.') = true := by
    intro c hc
    exact decide_eq_true fun heq => ha (heq ▸ hc)
  unfold partition
  rw [List.takeWhile_append_of_pos hpass, List.dropWhile_append_of_pos hpass]
  simp

theorem partition_none (ha : '.' ∉ a) : partition a = (a, [], []) := by
  have hpass : ∀ c ∈ a, decide (c ≠ '.') = true := by
    intro c hc
    exact decide_eq_true fun heq => ha (heq ▸ hc)
  unfold partition
  rw [List.takeWhile_eq_self_iff.mpr hpass, List.dropWhile_eq_nil_iff.mpr hpass, if_neg ha]
  rfl

theorem es6Text_signed (negative : Bool) (h : text.head? ≠ some '-') :
    es6Text (signed negative text) = signed negative (rearrange text) := by
  cases negative with
  | true => rfl
  | false =>
    cases text with
    | nil => rfl
    | cons c rest =>
      have hc : c ≠ '-' := fun heq => h (by rw [heq, List.head?_cons])
      simp only [signed, Bool.false_eq_true, if_false]
      unfold es6Text
      split
      · next heq => exact absurd (List.cons.inj heq).1 hc
      · rfl

/-! ### Positional notation -/

theorem positional_cases (d : Decimal) : '.' ∉ positional d.digits d.exponent ∨
      ∃ a b, positional d.digits d.exponent = a ++ '.' :: b ∧ '.' ∉ a ∧ b ≠ ['0'] := by
  have hpoint : '.' ∉ d.digits := not_mem_of_isDigit d.isDigit (by decide)
  have hlast : ∀ b : List Char, b ≠ [] → d.digits.getLast? = b.getLast? → b ≠ ['0'] := by
    rintro b - hsame rfl
    exact d.last hsame
  unfold positional
  by_cases hneg : d.exponent < 0
  · right
    rw [if_pos hneg]
    refine ⟨['0'], _, rfl, by decide, hlast _ ?_ ?_⟩
    · obtain ⟨c, rest, hdigits, -⟩ := d.first
      simp [hdigits]
    · obtain ⟨c, rest, hdigits, -⟩ := d.first
      rw [List.getLast?_append_of_ne_nil _ (by simp [hdigits])]
  · rw [if_neg hneg]
    by_cases hfew : d.digits.length ≤ d.exponent.toNat + 1
    · left
      rw [if_pos hfew]
      simp [hpoint, List.mem_replicate]
    · right
      rw [if_neg hfew]
      refine ⟨_, _, rfl, fun hmem => hpoint (List.mem_of_mem_take hmem), hlast _ ?_ ?_⟩
      · simp only [ne_eq, List.drop_eq_nil_iff]
        omega
      · rw [List.getLast?_drop, if_neg hfew]

theorem not_mem_positional (d : Decimal) : 'e' ∉ positional d.digits d.exponent := by
  have hdigits : 'e' ∉ d.digits := not_mem_of_isDigit d.isDigit (by decide)
  unfold positional
  split
  · simp [hdigits, List.mem_replicate]
  · split
    · simp [hdigits, List.mem_replicate]
    · simp only [List.mem_append, List.mem_cons, not_or]
      exact ⟨fun hmem => hdigits (List.mem_of_mem_take hmem), by decide,
        fun hmem => hdigits (List.mem_of_mem_drop hmem)⟩

theorem splitExponent_none (h : 'e' ∉ text) : splitExponent text = (text, [], 0) := by
  unfold splitExponent
  rw [List.idxOf?_eq_none_iff.mpr h]

/-- The branches of `_es6_float` when the fraction is not a single zero. -/
theorem rearrange_of_parts {body expStr first dot last : List Char} {e : ℤ}
    (hsplit : splitExponent text = (body, expStr, e)) (hparts : partition body = (first, dot, last))
    (hlast : last ≠ ['0']) :
    rearrange text =
      if 0 < e ∧ e < 21 then
        first ++ last ++ List.replicate (e + 1 - (first ++ last).length).toNat '0'
      else if -7 < e ∧ e < 0 then
        '0' :: '.' :: (List.replicate (-e - 1).toNat '0' ++ (first ++ last))
      else first ++ dot ++ last ++ expStr := by
  unfold rearrange
  simp only [hsplit, hparts, if_neg hlast]

theorem rearrange_positional (d : Decimal) :
    rearrange (if '.' ∈ positional d.digits d.exponent then positional d.digits d.exponent
      else positional d.digits d.exponent ++ ['.', '0']) = positional d.digits d.exponent := by
  have hnone := not_mem_positional d
  rcases positional_cases d with hno | ⟨a, b, hsplit, ha, hb⟩
  · have hnone' : 'e' ∉ positional d.digits d.exponent ++ ['.', '0'] := by simp [hnone]
    rw [if_neg hno]
    unfold rearrange
    rw [splitExponent_none hnone']
    dsimp only
    rw [partition_append hno]
    simp
  · have hmem : '.' ∈ positional d.digits d.exponent := by simp [hsplit]
    have hparts := partition_append ha b
    rw [← hsplit] at hparts
    rw [if_pos hmem, rearrange_of_parts (splitExponent_none hnone) hparts hb]
    simp [hsplit]

/-! ### Exponents -/

theorem strip_padTwo {n : ℕ} (hn : 0 < n) (a b : Char) :
    (if ((a :: b :: padTwo (numeral n)).drop 2).take 1 = ['0'] then
        (a :: b :: padTwo (numeral n)).take 2 ++ (a :: b :: padTwo (numeral n)).drop 3
      else a :: b :: padTwo (numeral n)) = a :: b :: numeral n := by
  have hhead := head_numeral hn
  unfold padTwo
  by_cases hshort : (numeral n).length < 2
  · rw [if_pos hshort]
    simp
  · rw [if_neg hshort, if_neg]
    intro hzero
    cases hdigits : numeral n with
    | nil => simp [hdigits] at hshort
    | cons d rest =>
      rw [hdigits] at hhead hzero
      exact hhead (congrArg some (List.cons.inj hzero).1)

theorem int_exponent (e : ℤ) : int (exponentSign e :: numeral e.natAbs) = e := by
  unfold exponentSign
  split <;> rw [int, magnitude_numeral] <;> omega

theorem splitExponent_some {before : List Char} (hbefore : 'e' ∉ before) (hne : before ≠ [])
    {e : ℤ} (he : e ≠ 0) :
    splitExponent (before ++ 'e' :: exponentSign e :: padTwo (numeral e.natAbs)) =
      (before, 'e' :: exponentSign e :: numeral e.natAbs, e) := by
  have hpos : 0 < before.length := List.length_pos_iff.mpr hne
  have hdrop : (before ++ 'e' :: exponentSign e :: padTwo (numeral e.natAbs)).drop before.length =
      'e' :: exponentSign e :: padTwo (numeral e.natAbs) := by
    simp
  unfold splitExponent
  rw [idxOf?_append_cons hbefore]
  dsimp only
  rw [if_pos hpos, hdrop, strip_padTwo (by omega), take_append_cons]
  simp [int_exponent]

theorem partition_mantissa {c : Char} {rest : List Char} (hc : c ≠ '.') (hrest : '.' ∉ rest) :
    partition (mantissa (c :: rest)) = ([c], if rest = [] then [] else ['.'], rest) := by
  cases rest with
  | nil =>
    have hnone : '.' ∉ [c] := by simpa using hc.symm
    exact partition_none hnone
  | cons d rest => exact partition_append (a := [c]) (by simpa using hc.symm) _

theorem rearrange_exponent (d : Double) (h : d.exponent < -4 ∨ 16 ≤ d.exponent) :
    rearrange (mantissa d.digits ++
        'e' :: exponentSign d.exponent :: padTwo (numeral d.exponent.natAbs)) =
      if -6 ≤ d.exponent ∧ d.exponent < 21 then positional d.digits d.exponent
      else mantissa d.digits ++ 'e' :: exponentSign d.exponent :: numeral d.exponent.natAbs := by
  obtain ⟨c, rest, hdigits, hzero⟩ := d.first
  have hpoint : '.' ∉ c :: rest := by
    rw [← hdigits]
    exact not_mem_of_isDigit d.isDigit (by decide)
  obtain ⟨hc, hrest⟩ := not_or.mp (mt List.mem_cons.mpr hpoint)
  have hfraction : rest ≠ ['0'] := by
    rintro rfl
    exact d.last (by rw [hdigits]; rfl)
  have hbefore : 'e' ∉ mantissa d.digits := not_mem_mantissa d.isDigit (by decide) (by decide)
  have hne : mantissa d.digits ≠ [] := by
    rw [hdigits]
    unfold mantissa
    split <;> simp_all
  have hlength := d.short
  have hparts := partition_mantissa (Ne.symm hc) hrest
  rw [← hdigits] at hparts
  have hall : [c] ++ rest = d.digits := hdigits.symm
  rw [rearrange_of_parts (splitExponent_some hbefore hne (by omega)) hparts hfraction, hall]
  unfold positional
  by_cases hlarge : 0 < d.exponent ∧ d.exponent < 21
  · -- at most seventeen digits, all of them before the point
    rw [if_pos hlarge, if_pos (by omega), if_neg (by omega), if_pos (by omega)]
    congr 2
    omega
  · rw [if_neg hlarge]
    by_cases hsmall : -7 < d.exponent ∧ d.exponent < 0
    · rw [if_pos hsmall, if_pos (by omega), if_pos (by omega)]
    · have houtside : ¬ (-6 ≤ d.exponent ∧ d.exponent < 21) := by omega
      rw [if_neg hsmall, if_neg houtside, hdigits]
      cases rest with
      | nil | cons => rfl

theorem es6Float_eq (d : Double) : es6Float d.toDecimal = numberToString d.toDecimal := by
  obtain ⟨c, rest, hdigits, hzero⟩ := d.first
  have hdigit : c ≠ '-' := isDigit_ne (d.isDigit c (by rw [hdigits]; simp)) (by decide)
  unfold es6Float repr
  by_cases hexp : d.exponent < -4 ∨ 16 ≤ d.exponent
  · have hhead : (mantissa d.digits ++ 'e' :: exponentSign d.exponent ::
        padTwo (numeral d.exponent.natAbs)).head? ≠ some '-' := by
      rw [hdigits]
      cases rest <;> simpa [mantissa] using hdigit
    rw [if_pos hexp, es6Text_signed _ hhead, rearrange_exponent d hexp]
    by_cases hrange : -6 ≤ d.exponent ∧ d.exponent < 21
    · rw [if_pos hrange, numberToString_positional hrange]
    · rw [if_neg hrange, numberToString_exponent hrange]
  · have hrange : -6 ≤ d.exponent ∧ d.exponent < 21 := by omega
    obtain ⟨c', rest', htext, hc'⟩ : ∃ c' rest',
        positional d.digits d.exponent = c' :: rest' ∧ c' ≠ '-' := by
      unfold positional
      split
      · exact ⟨'0', _, rfl, by decide⟩
      · split <;> exact ⟨c, _, by rw [hdigits]; rfl, hdigit⟩
    have hhead : (if '.' ∈ positional d.digits d.exponent then positional d.digits d.exponent
        else positional d.digits d.exponent ++ ['.', '0']).head? ≠ some '-' := by
      rw [htext]
      split <;> simpa using hc'
    rw [if_neg hexp, es6Text_signed _ hhead, rearrange_positional, numberToString_positional hrange]

end Python

/-! ## Agreement -/

theorem not_mem_numberToString_iff (d : Decimal) : 'e' ∉ numberToString d ↔ InFixedRange d := by
  rw [inFixedRange_iff]
  by_cases hrange : -6 ≤ d.exponent ∧ d.exponent < 21
  · rw [numberToString_positional hrange]
    have hnot := not_mem_signed d.negative (by decide) (Python.not_mem_positional d)
    exact iff_of_true hnot hrange
  · rw [numberToString_exponent hrange, signed_append]
    exact iff_of_false (fun hnot => hnot (by simp)) hrange

/-- Python, Rust and Go print every nonzero double as ECMAScript does, in positional
notation exactly from `1e-6` up to but not including `1e21`. -/
theorem es6_agree (d : Double) : Python.es6Float d.toDecimal = numberToString d.toDecimal ∧
      Rust.es6Format d.toDecimal = numberToString d.toDecimal ∧
      Go.es6Float d.toDecimal = numberToString d.toDecimal ∧
      ('e' ∉ numberToString d.toDecimal ↔ InFixedRange d.toDecimal) :=
  ⟨Python.es6Float_eq d, Rust.es6Format_eq _, Go.es6Float_eq _, not_mem_numberToString_iff _⟩

end UndoLog.Canonical
