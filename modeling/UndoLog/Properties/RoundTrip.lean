import UndoLog.Canonical.Doubles
import UndoLog.Canonical.Reading

/-!
# Canonical JSON of Python reads back

The text is ASCII, it is JSON, it reads back as the value it was written for, and it does not
depend on the order of the entries of a dict. The one thing that can stand in the way is the
limit of the interpreter on the digits of integers.
-/

namespace UndoLog.Canonical.Python

open Text

/-- An ASCII character. -/
def Ascii (c : Char) : Prop := c.toNat < 0x80

theorem ascii_digitChar : ∀ d < 16, Ascii (Nat.digitChar d) := by
  unfold Ascii
  decide

theorem ascii_of_isDigit {c : Char} (hc : c.isDigit = true) : Ascii c := by
  have hrange := isDigit_range hc
  unfold Ascii
  omega

theorem ascii_unitEscape {n : ℕ} (hn : n < 65536) : ∀ c ∈ unitEscape n, Ascii c := by
  intro c hc
  simp only [unitEscape, hex4, List.mem_cons, List.not_mem_nil, or_false] at hc
  rcases hc with rfl | rfl | rfl | rfl | rfl | rfl
  · exact show 0x5c < 0x80 by decide
  · exact show 0x75 < 0x80 by decide
  · exact ascii_digitChar _ (by omega)
  · exact ascii_digitChar _ (by omega)
  · exact ascii_digitChar _ (by omega)
  · exact ascii_digitChar _ (by omega)

theorem ascii_shortEscapes : ∀ e ∈ shortEscapes, Ascii e.2 := by
  unfold Ascii
  decide

theorem ascii_escapeCode {other : ℕ → List Char} {code : ℕ} (hother : ∀ c ∈ other code, Ascii c) :
    ∀ c ∈ escapeCode other code, Ascii c := by
  rcases escapeCode_cases code with ⟨letter, hmem, heq⟩ | ⟨-, heq⟩
  · rw [heq]
    intro c hc
    simp only [List.mem_cons, List.not_mem_nil, or_false] at hc
    rcases hc with rfl | rfl
    · exact show 0x5c < 0x80 by decide
    · exact ascii_shortEscapes _ hmem
  · rw [heq]
    exact hother

theorem ascii_escapeChar (d : Char) : ∀ c ∈ escapeChar d, Ascii c := by
  have hbound := toNat_lt d
  refine ascii_escapeCode ?_
  by_cases hcontrol : d.toNat < 0x20
  · rw [if_pos hcontrol]
    exact ascii_unitEscape (by omega)
  · rw [if_neg hcontrol]
    by_cases hascii : d.toNat < 0x80
    · rw [if_pos hascii]
      intro c hc
      rw [List.mem_singleton.mp hc]
      exact hascii
    · rw [if_neg hascii]
      by_cases hunit : d.toNat ≤ 0xffff
      · rw [if_pos hunit]
        exact ascii_unitEscape (by omega)
      · rw [if_neg hunit]
        intro c hc
        rcases List.mem_append.mp hc with hc | hc
        · exact ascii_unitEscape (by unfold highHalf; omega) c hc
        · exact ascii_unitEscape (by unfold lowHalf; omega) c hc

theorem ascii_escapeJsonString (s : List Char) : ∀ c ∈ escapeJsonString s, Ascii c := by
  intro c hc
  rw [escapeJsonString, quote, List.mem_cons, List.mem_append, List.mem_singleton] at hc
  rcases hc with rfl | hc | rfl
  · exact show 0x22 < 0x80 by decide
  · obtain ⟨d, -, hd⟩ := List.mem_flatMap.mp hc
    exact ascii_escapeChar d c hd
  · exact show 0x22 < 0x80 by decide

theorem ascii_signed {negative : Bool} {text : List Char} (h : ∀ c ∈ text, Ascii c) :
    ∀ c ∈ signed negative text, Ascii c := by
  cases negative with
  | true =>
    intro c hc
    rcases List.mem_cons.mp hc with rfl | hc
    · exact show 0x2d < 0x80 by decide
    · exact h c hc
  | false => exact h

theorem ascii_digits {digits : List Char} (h : ∀ c ∈ digits, c.isDigit = true) :
    ∀ c ∈ digits, Ascii c :=
  fun c hc => ascii_of_isDigit (h c hc)

theorem ascii_numberToString (d : Decimal) : ∀ c ∈ numberToString d, Ascii c := by
  have hdigits := ascii_digits d.isDigit
  have hpoint : Ascii '.' := show 0x2e < 0x80 by decide
  by_cases hrange : -6 ≤ d.exponent ∧ d.exponent < 21
  · rw [numberToString_positional hrange]
    refine ascii_signed fun c hc => ?_
    unfold positional at hc
    split at hc
    · simp only [List.mem_cons, List.mem_append] at hc
      rcases hc with rfl | rfl | hc | hc
      · exact ascii_of_isDigit rfl
      · exact hpoint
      · exact ascii_of_isDigit (isDigit_replicate _ c hc)
      · exact hdigits c hc
    · split at hc
      · rcases List.mem_append.mp hc with hc | hc
        · exact hdigits c hc
        · exact ascii_of_isDigit (isDigit_replicate _ c hc)
      · simp only [List.mem_cons, List.mem_append] at hc
        rcases hc with hc | rfl | hc
        · exact hdigits c (List.mem_of_mem_take hc)
        · exact hpoint
        · exact hdigits c (List.mem_of_mem_drop hc)
  · rw [numberToString_exponent hrange]
    refine ascii_signed fun c hc => ?_
    simp only [List.mem_cons, List.mem_append] at hc
    rcases hc with hc | rfl | rfl | hc
    · unfold mantissa at hc
      split at hc
      · cases hc
      · next e hd => exact hdigits c (by rw [hd]; exact hc)
      · next e rest _ hd =>
        rcases List.mem_cons.mp hc with rfl | hc
        · exact hdigits _ (by rw [hd]; simp)
        · rcases List.mem_cons.mp hc with rfl | hc
          · exact hpoint
          · exact hdigits c (by rw [hd]; exact List.mem_cons_of_mem _ hc)
    · exact show 0x65 < 0x80 by decide
    · unfold exponentSign
      split
      · exact show 0x2d < 0x80 by decide
      · exact show 0x2b < 0x80 by decide
    · exact ascii_of_isDigit (isDigit_numeral c hc)

variable (L : FloatLibrary)

theorem ascii_numberText (n : Number) : ∀ c ∈ numberText L n, Ascii c := by
  cases n with
  | int i => exact ascii_signed (ascii_digits isDigit_numeral)
  | float x =>
    change ∀ c ∈ floatText es6Float L x, Ascii c
    unfold floatText
    split
    · intro c hc
      rw [List.mem_singleton.mp hc]
      exact ascii_of_isDigit rfl
    · rw [es6Float_eq]
      exact ascii_numberToString _

theorem toNat_ofNat_ascii {c : Char} (hc : c.toNat < 0x80) :
    (UInt8.ofNat c.toNat).toNat = c.toNat := by
  rw [UInt8.toNat_ofNat']
  omega

theorem ascii_punctuation : ∀ c ∈ "{}[]:,nulltruefalse".toList, Ascii c := by
  have hall : ("{}[]:,nulltruefalse".toList.all fun c => c.toNat < 0x80) = true := by decide
  intro c hc
  have hlt := List.all_eq_true.mp hall c hc
  rwa [decide_eq_true_eq] at hlt

theorem ascii_print (v : Value (List Char) Number) : ∀ c ∈ (style L).print v, Ascii c :=
  (style L).forall_mem_print ascii_punctuation ascii_escapeJsonString ascii_escapeJsonString
    (ascii_numberText L) v

/-! ## The order of keys -/

theorem le_iff (k l : List Char) : (style L).le k l ↔ ¬l < k := by
  change (!decide (l < k)) = true ↔ ¬l < k
  rw [Bool.not_eq_true', decide_eq_false_iff_not]

theorem le_total (k l : List Char) : (style L).le k l ∨ (style L).le l k := by
  rw [le_iff, le_iff]
  by_cases hlt : l < k
  · exact Or.inr (List.lt_asymm hlt)
  · exact Or.inl hlt

theorem le_trans (k l m : List Char) (hkl : (style L).le k l)
    (hlm : (style L).le l m) : (style L).le k m := by
  rw [le_iff] at *
  exact List.not_lt.mpr (List.le_trans (List.not_lt.mp hkl) (List.not_lt.mp hlm))

theorem le_antisymm (k l : List Char) (hkl : (style L).le k l)
    (hlk : (style L).le l k) : k = l := by
  rw [le_iff] at *
  exact List.le_antisymm (List.not_lt.mp hkl) (List.not_lt.mp hlk)

/-! ## The round trip -/

/-- What a number of a text has to be for a number of the value: the integer itself, or a
number that is read as the float. -/
def Denotes : Number → ℚ → Prop
  | .int i, q => q = i
  | .float x, q => (L.read q).eq x = true

theorem denotes_denoted (n : Number) : Denotes L n (denoted L n) := by
  cases n with
  | int i => rfl
  | float x => exact read_floatValue L x

/-- The JSON values of Python. A dict has no key twice. -/
abbrev Data : Type := {v : Value (List Char) Number // v.Distinct}

/-- The text is ASCII, it is the JSON of the value, and values that differ in the order of
the entries of dicts only have the same text. -/
structure RoundTrip (P : Interpreter) (L : FloatLibrary) (v : Data) (text : List Char) : Prop where
  ok : canonicalJson P L v.1 = .ok text
  ascii : ∀ c ∈ text, Ascii c
  parses : ∃ w, jsonReader.parse text = some w ∧ v.1.Matches (Denotes L) w
  independent : ∀ w : Data, v.1.Matches Eq w.1 → canonicalJson P L w.1 = .ok text

/-- Every JSON value makes the round trip exactly when the digits of its integers are within
the limit of the interpreter. -/
theorem roundTrip_iff (P : Interpreter) (L : FloatLibrary) (v : Data) :
    (∃ text, RoundTrip P L v text) ↔ Fits P v.1 := by
  constructor
  · rintro ⟨text, hround⟩
    exact ((canonicalJson_eq_ok_iff P L v.1 text).mp hround.ok).1
  · intro hfits
    refine ⟨(style L).print v.1, canonicalJson_ok P L v.1 hfits, ascii_print L v.1, ?_, ?_⟩
    · have hall : v.1.All (Value.AllKeys fun _ => True) (fun _ => True) fun _ => True :=
        Value.all_of_forall (fun _ _ _ => trivial) (fun _ => trivial) (fun _ => trivial) v.1
      exact ⟨_, Reader.parse_print (reads L) v.1 hall,
        Value.matches_sorted (style L) (denoted L) (denotes_denoted L) v.1⟩
    · intro w hmatch
      have hprint := (style L).print_eq_of_matches (le_total L) (le_trans L) (le_antisymm L)
        v.1 w.1 v.2 hmatch
      rw [hprint]
      exact canonicalJson_ok P L w.1 (hmatch.all hfits)

theorem not_fits_pow {P : Interpreter} (hP : P.maxStrDigits ≠ 0) :
    ¬P.Fits (.int (10 ^ P.maxStrDigits)) := by
  rintro (hoff | hle)
  · exact hP hoff
  · rw [Int.natAbs_pow, Nat.length_toDigits_le_iff (by decide) (by omega)] at hle
    exact lt_irrefl _ hle

/-- An integer beyond the limit that an interpreter starts with. -/
def hugeInteger : Data := ⟨.number (.int (10 ^ Interpreter.initial.maxStrDigits)), trivial⟩

/-- With the settings an interpreter starts with, an integer of 4301 digits has no text. -/
theorem hugeInteger_no_roundTrip :
    ¬∃ text, RoundTrip Interpreter.initial FloatLibrary.standard hugeInteger text := by
  rintro ⟨text, hround⟩
  have hfits := ((canonicalJson_eq_ok_iff _ _ _ text).mp hround.ok).1
  exact not_fits_pow (by decide) hfits

end UndoLog.Canonical.Python
