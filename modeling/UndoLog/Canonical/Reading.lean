import UndoLog.Canonical.Encoders

/-!
# Reading canonical JSON

Everything that Python writes and every leaf that Rust writes reads back by the grammar of
JSON. Rust writes keys without escapes, so its objects need a reader of their own: a key ends
at the first quote that a colon follows.
-/

namespace UndoLog.Canonical

open Text

/-! ## Characters -/

theorem readEscape_short (rest : List Char) :
    ∀ e ∈ shortEscapes, readEscape (e.2 :: rest) = some (Char.ofNat e.1, rest) := by
  simp only [shortEscapes, List.forall_mem_cons]
  exact ⟨rfl, rfl, rfl, rfl, rfl, rfl, rfl, by simp⟩

variable {c : Char} {rest : List Char} {x : FiniteF64} {es6 : Decimal → List Char}
  {L : FloatLibrary}

theorem readsBack_escapeCode {other : ℕ → List Char}
    (hother : c ≠ '"' → c ≠ '\\' → ReadsBack c (other c.toNat)) :
    ReadsBack c (escapeCode other c.toNat) := by
  rcases escapeCode_cases c.toNat with ⟨letter, hmem, heq⟩ | ⟨hnot, heq⟩
  · rw [heq]
    refine .escape fun rest => ?_
    have hread := readEscape_short rest _ hmem
    rwa [Char.ofNat_toNat] at hread
  · rw [heq]
    refine hother (fun hquote => ?_) fun hescape => ?_
    · exact hnot (0x22, '"') (by simp [shortEscapes]) (by rw [hquote]; rfl)
    · exact hnot (0x5c, '\\') (by simp [shortEscapes]) (by rw [hescape]; rfl)

theorem readsBack_unitEscape (hc : c.toNat < 65536) : ReadsBack c (unitEscape c.toNat) :=
  .escape fun rest => readEscape_unit hc rest

theorem Python.readsBack_escapeChar (c : Char) : ReadsBack c (Python.escapeChar c) := by
  refine readsBack_escapeCode fun hquote hescape => ?_
  by_cases hcontrol : c.toNat < 0x20
  · rw [if_pos hcontrol]
    exact readsBack_unitEscape (by omega)
  · rw [if_neg hcontrol]
    by_cases hascii : c.toNat < 0x80
    · rw [if_pos hascii]
      exact .plain (by omega) hquote hescape
    · rw [if_neg hascii]
      by_cases hunit : c.toNat ≤ 0xffff
      · rw [if_pos hunit]
        exact readsBack_unitEscape (by omega)
      · rw [if_neg hunit]
        exact .escape fun rest => readEscape_pair (by omega) rest

theorem Rust.readsBack_escapeChar (c : Char) : ReadsBack c (Rust.escapeChar c) := by
  refine readsBack_escapeCode fun hquote hescape => ?_
  by_cases hcontrol : c.toNat < 0x20
  · rw [if_pos hcontrol]
    exact readsBack_unitEscape (by omega)
  · rw [if_neg hcontrol]
    exact .plain (by omega) hquote hescape

/-! ## Numbers -/

theorem head_positional (d : Decimal) :
    ∃ c rest, positional d.digits d.exponent = c :: rest ∧ c.isDigit = true := by
  obtain ⟨c, rest, hdigits, -⟩ := d.first
  have hc : c.isDigit = true := d.isDigit c (by rw [hdigits]; simp)
  unfold positional
  split
  · exact ⟨'0', _, rfl, rfl⟩
  · rw [hdigits]
    split
    · exact ⟨c, _, rfl, hc⟩
    · exact ⟨c, _, rfl, hc⟩

theorem head_mantissa (d : Decimal) :
    ∃ c rest, mantissa d.digits = c :: rest ∧ c.isDigit = true := by
  obtain ⟨c, rest, hdigits, -⟩ := d.first
  have hc : c.isDigit = true := d.isDigit c (by rw [hdigits]; simp)
  rw [hdigits]
  cases rest with
  | nil | cons => exact ⟨c, _, rfl, hc⟩

theorem numberToString_body (d : Decimal) : ∃ c text,
    numberToString d = signed d.negative (c :: text) ∧ c.isDigit = true ∧
      ∀ rest, Delimited rest → readMagnitude (c :: text ++ rest) = some (d.abs, rest) := by
  by_cases hrange : -6 ≤ d.exponent ∧ d.exponent < 21
  · obtain ⟨c, text, htext, hc⟩ := head_positional d
    refine ⟨c, text, ?_, hc, fun rest hrest => ?_⟩
    · rw [numberToString_positional hrange, htext]
    · rw [← htext]
      exact readMagnitude_positional d hrest
  · obtain ⟨c, text, htext, hc⟩ := head_mantissa d
    refine ⟨c, text ++ 'e' :: exponentSign d.exponent :: numeral d.exponent.natAbs, ?_, hc,
      fun rest hrest => ?_⟩
    · rw [numberToString_exponent hrange, htext]
      rfl
    · rw [← List.cons_append, ← htext]
      exact readMagnitude_exponent d hrest

theorem readNumber_numberToString (d : Decimal) (hrest : Delimited rest) :
    readNumber (numberToString d ++ rest) = some (d.value, rest) := by
  obtain ⟨c, text, htext, hc, hread⟩ := numberToString_body d
  have hhead : (c :: text).head? ≠ some '-' := by
    rw [List.head?_cons]
    exact fun heq => isDigit_ne (d := '-') hc rfl (Option.some.inj heq)
  rw [htext]
  exact readNumber_signed d.negative (hread rest hrest) hhead (List.cons_ne_nil _ _)

theorem signed_start (negative : Bool) {text : List Char} (hc : c.isDigit = true) :
    ∃ e rest, signed negative (c :: text) = e :: rest ∧ (e.isDigit = true ∨ e = '-') := by
  cases negative with
  | true => exact ⟨'-', c :: text, rfl, Or.inr rfl⟩
  | false => exact ⟨c, text, rfl, Or.inl hc⟩

theorem numeral_start (n : ℕ) : ∃ c rest, numeral n = c :: rest ∧ c.isDigit = true := by
  have hdigit : ∀ c ∈ numeral n, c.isDigit = true := isDigit_numeral
  cases htext : numeral n with
  | nil => exact absurd htext Nat.toDigits_ne_nil
  | cons c rest => exact ⟨c, rest, rfl, hdigit c (by rw [htext]; simp)⟩

/-- The number that the text of a double denotes. -/
def floatValue (L : FloatLibrary) (x : FiniteF64) : ℚ :=
  if x.isZero then 0 else (L.digits x).value

theorem eq_iff {y : FiniteF64} : x.eq y = true ↔ x = y ∨ x.isZero = true ∧ y.isZero = true := by
  have hbits : x.bits = y.bits ↔ x = y := by
    refine ⟨fun h => ?_, fun h => h ▸ rfl⟩
    cases x
    cases y
    congr
  simp only [FiniteF64.eq, Bool.or_eq_true, beq_iff_eq, Bool.and_eq_true, hbits]

theorem read_floatValue (L : FloatLibrary) (x : FiniteF64) :
    (L.read (floatValue L x)).eq x = true := by
  rw [eq_iff]
  unfold floatValue
  cases hzero : x.isZero with
  | true =>
    rw [if_pos rfl]
    exact Or.inr ⟨L.read_zero, rfl⟩
  | false =>
    rw [if_neg (by decide)]
    exact Or.inl (L.read_digits x hzero)

section

variable (hes6 : es6 (L.digits x).toDecimal = numberToString (L.digits x).toDecimal)
include hes6

theorem readNumber_floatText (hrest : Delimited rest) :
    readNumber (floatText es6 L x ++ rest) = some (floatValue L x, rest) := by
  unfold floatText floatValue
  split
  · exact readNumber_integer 0 hrest
  · rw [hes6]
    exact readNumber_numberToString _ hrest

theorem floatText_start :
    ∃ c rest, floatText es6 L x = c :: rest ∧ (c.isDigit = true ∨ c = '-') := by
  unfold floatText
  split
  · exact ⟨'0', [], rfl, Or.inl rfl⟩
  · obtain ⟨c, text, htext, hc, -⟩ := numberToString_body (L.digits x).toDecimal
    rw [hes6, htext]
    exact signed_start _ hc

end

/-! ## Python -/

namespace Python

/-- The literals of RFC 8259. -/
def jsonReader : Reader (List Char) ℚ := ⟨readString, readString, readNumber⟩

/-- The number that the text of a number denotes. -/
def denoted (L : FloatLibrary) : Number → ℚ
  | .int i => i
  | .float x => floatValue L x

/-- What Python writes is read by the grammar of JSON. -/
theorem reads (L : FloatLibrary) :
    jsonReader.Reads (style L) (denoted L) (fun _ => True) (fun _ => True) fun _ => True where
  key k _ rest := readString_quote (fun c _ => readsBack_escapeChar c) _
  string s _ rest := readString_quote (fun c _ => readsBack_escapeChar c) _
  number n _ rest hrest := by
    cases n with
    | int i => exact readNumber_integer i hrest
    | float x => exact readNumber_floatText (es6Float_eq _) hrest
  key_start k := ⟨_, rfl⟩
  string_start s := ⟨_, rfl⟩
  number_start n := by
    cases n with
    | int i =>
      obtain ⟨c, rest, htext, hc⟩ := numeral_start i.natAbs
      change ∃ e rest, signed (i < 0) (numeral i.natAbs) = e :: rest ∧ (e.isDigit = true ∨ e = '-')
      rw [htext]
      exact signed_start _ hc
    | float x => exact floatText_start (es6Float_eq _)

end Python

/-! ## Rust -/

namespace Rust

/-- A key without escapes, up to the first quote that a colon follows. -/
def readRaw : List Char → Option (List Char × List Char)
  | [] => none
  | c :: rest =>
    if c = '"' ∧ rest.head? = some ':' then some ([], rest)
    else (readRaw rest).map fun k => (c :: k.1, k.2)

/-- A key in quotes. -/
def readKey : List Char → Option (List Char × List Char)
  | '"' :: rest => readRaw rest
  | _ => none

/-- The texts that Rust writes. -/
def rawReader : Reader (List Char) ℚ := ⟨readKey, readString, readNumber⟩

/-- The number that the text of a number denotes. -/
def denoted (L : FloatLibrary) (n : JsonNumber) : ℚ := Python.denoted L (Python.ofJson n)

/-- A key that contains no quote in front of a colon. -/
def Separable (k : List Char) : Prop := ¬ ['"', ':'] <:+: k

instance (k : List Char) : Decidable (Separable k) := by unfold Separable; infer_instance

theorem readRaw_append {k : List Char} (hk : Separable k) (rest : List Char) :
    readRaw (k ++ '"' :: ':' :: rest) = some (k, ':' :: rest) := by
  induction k with
  | nil => rfl
  | cons c k ih =>
    have hrest : Separable k := fun h => hk (h.trans (List.suffix_cons c k).isInfix)
    have hnot : ¬(c = '"' ∧ (k ++ '"' :: ':' :: rest).head? = some ':') := by
      rintro ⟨rfl, hhead⟩
      cases k with
      | nil => cases hhead
      | cons d k =>
        rw [List.cons_append, List.head?_cons, Option.some.injEq] at hhead
        subst hhead
        exact hk ⟨[], k, rfl⟩
    rw [List.cons_append, readRaw, if_neg hnot, ih hrest, Option.map_some]

theorem reads (L : FloatLibrary) :
    rawReader.Reads (style L) (denoted L) Separable (fun _ => True) fun _ => True where
  key k hk rest := by
    change readRaw (k ++ ['"'] ++ ':' :: rest) = _
    rw [List.append_assoc]
    exact readRaw_append hk rest
  string s _ rest := readString_quote (fun c _ => readsBack_escapeChar c) _
  number n _ rest hrest := by
    change readNumber (number L n ++ rest) = _
    rw [number_eq]
    exact (Python.reads L).number _ trivial rest hrest
  key_start k := ⟨_, rfl⟩
  string_start s := ⟨_, rfl⟩
  number_start n := by
    change ∃ c text, number L n = c :: text ∧ (c.isDigit = true ∨ c = '-')
    rw [number_eq]
    exact (Python.reads L).number_start _

end Rust

end UndoLog.Canonical
