import UndoLog.Text.Decimal

/-!
# Strings and numbers of JSON texts

The two kinds of literals of RFC 8259 are read from the front of a text, which leaves the
rest of it. A string literal is read one character at a time, with escapes of UTF-16 code
units joined to pairs. A number literal is read as the rational number it denotes.
-/

namespace Text

/-! ## Hexadecimal digits -/

/-- The value of a hexadecimal digit. -/
def hexValue (c : Char) : Option ℕ :=
  if c.isDigit then some (c.toNat - 48)
  else if 97 ≤ c.toNat ∧ c.toNat ≤ 102 then some (c.toNat - 87)
  else if 65 ≤ c.toNat ∧ c.toNat ≤ 70 then some (c.toNat - 55)
  else none

/-- Four lowercase hexadecimal digits of a code unit. -/
def hex4 (n : ℕ) : List Char :=
  [Nat.digitChar (n / 4096), Nat.digitChar (n / 256 % 16), Nat.digitChar (n / 16 % 16),
    Nat.digitChar (n % 16)]

/-- Four hexadecimal digits at the front of a text. -/
def readHex4 : List Char → Option (ℕ × List Char)
  | a :: b :: c :: d :: rest =>
    match hexValue a, hexValue b, hexValue c, hexValue d with
    | some a, some b, some c, some d => some (((a * 16 + b) * 16 + c) * 16 + d, rest)
    | _, _, _, _ => none
  | _ => none

theorem hexValue_digitChar : ∀ d < 16, hexValue (Nat.digitChar d) = some d := by
  decide

variable {n : ℕ} {escape : Char → List Char} {s : List Char}

/-- Four digits are read back. -/
theorem readHex4_hex4 (hn : n < 65536) (rest : List Char) :
    readHex4 (hex4 n ++ rest) = some (n, rest) := by
  have hfirst := hexValue_digitChar (n / 4096) (by omega)
  have hsecond := hexValue_digitChar (n / 256 % 16) (by omega)
  have hthird := hexValue_digitChar (n / 16 % 16) (by omega)
  have hfourth := hexValue_digitChar (n % 16) (by omega)
  have hsum : ((n / 4096 * 16 + n / 256 % 16) * 16 + n / 16 % 16) * 16 + n % 16 = n := by omega
  simp only [hex4, List.cons_append, List.nil_append, readHex4, hfirst, hsecond, hthird, hfourth,
    hsum]

/-! ## Identifiers -/

/-- Groups of four hexadecimal digits, each behind a separator. -/
def writeGroups : List (List Char) → ℕ → List Char
  | [], _ => []
  | separator :: rest, n =>
    separator ++ (hex4 (n / 65536 ^ rest.length % 65536) ++ writeGroups rest n)

/-- The number that is written in groups. -/
def readGroups : List (List Char) → List Char → Option ℕ
  | [], text => if text = [] then some 0 else none
  | separator :: rest, text =>
    if separator <+: text then
      (readHex4 (text.drop separator.length)).bind fun (group, text) =>
        (readGroups rest text).map (group * 65536 ^ rest.length + ·)
    else none

/-- Groups are read back. -/
theorem readGroups_writeGroups (separators : List (List Char)) (n : ℕ) :
    readGroups separators (writeGroups separators n) = some (n % 65536 ^ separators.length) := by
  induction separators with
  | nil => simp [readGroups, writeGroups, Nat.mod_one]
  | cons separator rest ih =>
    have hgroup : n / 65536 ^ rest.length % 65536 < 65536 := Nat.mod_lt _ (by omega)
    rw [writeGroups, readGroups, if_pos (List.prefix_append _ _), List.drop_left,
      readHex4_hex4 hgroup]
    simp only [Option.bind_some, ih, Option.map_some, List.length_cons]
    rw [Nat.pow_succ, Nat.mod_mul, Nat.mul_comm, Nat.add_comm]

/-- The places of the hyphens in the text of a UUID. -/
def hyphens : List (List Char) := [[], [], ['-'], ['-'], ['-'], ['-'], [], []]

/-- The hyphenated text of a UUID. -/
def uuidText (u : BitVec 128) : String := String.ofList (writeGroups hyphens u.toNat)

/-- The UUID of a hyphenated text. -/
def readUuid (text : String) : Option (BitVec 128) :=
  (readGroups hyphens text.toList).map (BitVec.ofNat 128)

/-- An identifier is read back. -/
theorem readUuid_uuidText (u : BitVec 128) : readUuid (uuidText u) = some u := by
  rw [readUuid, uuidText, String.toList_ofList, readGroups_writeGroups]
  have hlt : u.toNat < 65536 ^ hyphens.length := u.isLt
  rw [Nat.mod_eq_of_lt hlt, Option.map_some, BitVec.ofNat_toNat, BitVec.setWidth_eq]

theorem uuidText_injective : Function.Injective uuidText := by
  intro u v h
  have hread := readUuid_uuidText u
  rw [h, readUuid_uuidText] at hread
  exact (Option.some.inj hread).symm

/-! ## String literals -/

/-- The escape of a code unit by its number. -/
def unitEscape (n : ℕ) : List Char := '\\' :: 'u' :: hex4 n

/-- The first half of a pair of code units. -/
def IsHigh (n : ℕ) : Prop := 0xD800 ≤ n ∧ n < 0xDC00

/-- The second half of a pair of code units. -/
def IsLow (n : ℕ) : Prop := 0xDC00 ≤ n ∧ n < 0xE000

instance (n : ℕ) : Decidable (IsHigh n) := by unfold IsHigh; infer_instance

instance (n : ℕ) : Decidable (IsLow n) := by unfold IsLow; infer_instance

/-- The character of a pair of code units. -/
def joinPair (high low : ℕ) : Char :=
  Char.ofNat (0x10000 + (high - 0xD800) * 0x400 + (low - 0xDC00))

/-- The second half of a pair, which has to follow the first one. -/
def readLow (high : ℕ) : List Char → Option (Char × List Char)
  | '\\' :: 'u' :: rest =>
    match readHex4 rest with
    | some (low, rest) => if IsLow low then some (joinPair high low, rest) else none
    | none => none
  | _ => none

/-- What follows a backslash. -/
def readEscape : List Char → Option (Char × List Char)
  | '"' :: rest => some ('"', rest)
  | '\\' :: rest => some ('\\', rest)
  | '/' :: rest => some ('/', rest)
  | 'b' :: rest => some ('\x08', rest)
  | 'f' :: rest => some ('\x0c', rest)
  | 'n' :: rest => some ('\n', rest)
  | 'r' :: rest => some ('\r', rest)
  | 't' :: rest => some ('\t', rest)
  | 'u' :: rest =>
    match readHex4 rest with
    | some (unit, rest) =>
      if IsHigh unit then readLow unit rest
      else if IsLow unit then none
      else some (Char.ofNat unit, rest)
    | none => none
  | _ => none

/-- The characters of a string literal up to its closing quote. -/
def readChars : ℕ → List Char → Option (List Char × List Char)
  | 0, _ => none
  | _ + 1, [] => none
  | n + 1, c :: rest =>
    if c = '"' then some ([], rest)
    else if c = '\\' then
      match readEscape rest with
      | some (c, rest) => (readChars n rest).map fun s => (c :: s.1, s.2)
      | none => none
    else if c.toNat < 0x20 then none
    else (readChars n rest).map fun s => (c :: s.1, s.2)

/-- A string literal at the front of a text. -/
def readString : List Char → Option (List Char × List Char)
  | '"' :: rest => readChars rest.length rest
  | _ => none

/-- A string literal, written character by character. -/
def quote (escape : Char → List Char) (s : List Char) : List Char :=
  '"' :: (s.flatMap escape ++ ['"'])

/-- What is written for a character reads back as it. -/
inductive ReadsBack (c : Char) : List Char → Prop where
  | plain (hcontrol : 0x20 ≤ c.toNat) (hquote : c ≠ '"') (hescape : c ≠ '\\') : ReadsBack c [c]
  | escape {text : List Char} (h : ∀ rest, readEscape (text ++ rest) = some (c, rest)) :
    ReadsBack c ('\\' :: text)

variable {rest digits text : List Char} {c : Char}

theorem readChars_readsBack (h : ReadsBack c text) (n : ℕ) (rest : List Char) :
    readChars (n + 1) (text ++ rest) = (readChars n rest).map fun s => (c :: s.1, s.2) := by
  cases h with
  | plain hcontrol hquote hescape =>
    have hnot : ¬c.toNat < 0x20 := by omega
    rw [List.singleton_append, readChars, if_neg hquote, if_neg hescape, if_neg hnot]
  | escape h =>
    rw [List.cons_append, readChars, if_neg (by decide), if_pos rfl, h rest]

theorem ReadsBack.length_pos (h : ReadsBack c text) : 0 < text.length := by
  cases h <;> simp

/-- A text of escapes is read back. -/
theorem readChars_flatMap (h : ∀ c ∈ s, ReadsBack c (escape c)) (hn : s.length < n)
    (rest : List Char) : readChars n (s.flatMap escape ++ '"' :: rest) = some (s, rest) := by
  induction s generalizing n with
  | nil =>
    obtain ⟨n, rfl⟩ := Nat.exists_eq_add_of_lt hn
    rfl
  | cons c s ih =>
    rw [List.length_cons] at hn
    obtain ⟨m, rfl⟩ : ∃ m, n = m + 1 := ⟨n - 1, by omega⟩
    have hrest := ih (fun d hd => h d (List.mem_cons_of_mem _ hd)) (n := m) (by omega)
    rw [List.flatMap_cons, List.append_assoc, readChars_readsBack (h c (by simp)), hrest]
    rfl

/-- A string literal reads back as the string. -/
theorem readString_quote (h : ∀ c ∈ s, ReadsBack c (escape c)) (rest : List Char) :
    readString (quote escape s ++ rest) = some (s, rest) := by
  have hlength : s.length ≤ (s.flatMap escape).length := by
    induction s with
    | nil => exact Nat.zero_le _
    | cons c s ih =>
      have hrest := ih fun d hd => h d (List.mem_cons_of_mem _ hd)
      have hfirst := (h c (by simp)).length_pos
      rw [List.flatMap_cons, List.length_append, List.length_cons]
      omega
  have hshape : quote escape s ++ rest = '"' :: (s.flatMap escape ++ '"' :: rest) := by
    simp [quote]
  rw [hshape, readString]
  apply readChars_flatMap h
  rw [List.length_append, List.length_cons]
  omega

/-! ### Escapes -/

/-- A code unit that is not half of a pair stands for a character. -/
theorem readEscape_unit (hc : c.toNat < 65536) (rest : List Char) :
    readEscape ('u' :: hex4 c.toNat ++ rest) = some (c, rest) := by
  have hnat : c.toNat < 0xD800 ∨ 0xDFFF < c.toNat := c.valid.imp id (·.1)
  have hhigh : ¬IsHigh c.toNat := by
    unfold IsHigh
    omega
  have hlow : ¬IsLow c.toNat := by
    unfold IsLow
    omega
  rw [List.cons_append, readEscape, readHex4_hex4 hc]
  simp only [if_neg hhigh, if_neg hlow, Char.ofNat_toNat]

/-- The halves of the pair of a character beyond the first 65536. -/
def highHalf (n : ℕ) : ℕ := 0xD800 + (n - 0x10000) / 0x400

def lowHalf (n : ℕ) : ℕ := 0xDC00 + (n - 0x10000) % 0x400

theorem toNat_lt (c : Char) : c.toNat < 0x110000 := by
  have hnat : c.toNat < 0xD800 ∨ c.toNat < 0x110000 := c.valid.imp id (·.2)
  omega

theorem isHigh_highHalf (hlow : 0x10000 ≤ n) (hhigh : n < 0x110000) : IsHigh (highHalf n) := by
  unfold IsHigh highHalf
  omega

theorem isLow_lowHalf (n : ℕ) : IsLow (lowHalf n) := by
  unfold IsLow lowHalf
  omega

/-- Surrogates give their character back. -/
theorem joinPair_halves (hc : 0x10000 ≤ c.toNat) :
    joinPair (highHalf c.toNat) (lowHalf c.toNat) = c := by
  have hsum : 0x10000 + (highHalf c.toNat - 0xD800) * 0x400 + (lowHalf c.toNat - 0xDC00) =
      c.toNat := by
    unfold highHalf lowHalf
    omega
  rw [joinPair, hsum, Char.ofNat_toNat]

/-- A pair of code units is read as one character. -/
theorem readEscape_join {high low : ℕ} (hhigh : IsHigh high) (hlow : IsLow low) (rest : List Char) :
    readEscape ('u' :: hex4 high ++ unitEscape low ++ rest) = some (joinPair high low, rest) := by
  have hfirst : high < 65536 := by
    unfold IsHigh at hhigh
    omega
  have hsecond : low < 65536 := by
    unfold IsLow at hlow
    omega
  rw [List.append_assoc, List.cons_append, readEscape, readHex4_hex4 hfirst]
  simp only [if_pos hhigh, unitEscape, List.cons_append, readLow, readHex4_hex4 hsecond,
    if_pos hlow]

/-- The pair of a character reads back as it. -/
theorem readEscape_pair (hc : 0x10000 ≤ c.toNat) (rest : List Char) :
    readEscape ('u' :: hex4 (highHalf c.toNat) ++ unitEscape (lowHalf c.toNat) ++ rest) =
      some (c, rest) := by
  have hread := readEscape_join (isHigh_highHalf hc (toNat_lt c)) (isLow_lowHalf c.toNat) rest
  rwa [joinPair_halves hc] at hread

/-! ## Number literals -/

/-- The digits at the front of a text. -/
def digitRun (text : List Char) : List Char := text.takeWhile Char.isDigit

/-- What follows the digits at the front of a text. -/
def afterDigits (text : List Char) : List Char := text.dropWhile Char.isDigit

/-- Digits, at least one of them, and a single one if the first is a zero. -/
def readWhole (text : List Char) : Option (List Char × List Char) :=
  let digits := digitRun text
  if digits = [] ∨ digits.head? = some '0' ∧ digits ≠ ['0'] then none
  else some (digits, afterDigits text)

/-- The digits after a point, or none without a point. -/
def readFraction : List Char → Option (List Char × List Char)
  | '.' :: rest => if digitRun rest = [] then none else some (digitRun rest, afterDigits rest)
  | rest => some ([], rest)

/-- The digits of an exponent after its sign. -/
def readExponentDigits (negative : Bool) (text : List Char) : Option (ℤ × List Char) :=
  if digitRun text = [] then none
  else
    let size : ℤ := magnitude (digitRun text)
    some (if negative then -size else size, afterDigits text)

/-- What follows the letter of an exponent. -/
def readSignedExponent : List Char → Option (ℤ × List Char)
  | '-' :: rest => readExponentDigits true rest
  | '+' :: rest | rest => readExponentDigits false rest

/-- An exponent, which is zero where there is none. -/
def readExponent : List Char → Option (ℤ × List Char)
  | 'e' :: rest | 'E' :: rest => readSignedExponent rest
  | rest => some (0, rest)

/-- A number literal without its sign. -/
def readMagnitude (text : List Char) : Option (ℚ × List Char) := do
  let (whole, rest) ← readWhole text
  let (fraction, rest) ← readFraction rest
  let (exponent, rest) ← readExponent rest
  pure ((magnitude (whole ++ fraction) : ℚ) * 10 ^ (exponent - fraction.length), rest)

/-- A number literal at the front of a text. -/
def readNumber : List Char → Option (ℚ × List Char)
  | '-' :: rest => (readMagnitude rest).map fun q => (-q.1, q.2)
  | text => readMagnitude text

/-- A text that does not go on with one of the characters of a number. -/
def Delimited (rest : List Char) : Prop :=
  ∀ c ∈ rest.head?, c.isDigit = false ∧ c ≠ '.' ∧ c ≠ 'e' ∧ c ≠ 'E'

section

variable (h : ∀ c ∈ digits, c.isDigit = true) (hrest : ∀ c ∈ rest.head?, c.isDigit = false)
include h hrest

theorem digitRun_append : digitRun (digits ++ rest) = digits := by
  rw [digitRun, List.takeWhile_append_of_pos h]
  cases rest with
  | nil => simp
  | cons c rest => rw [List.takeWhile_cons_of_neg (by simp [hrest c rfl]), List.append_nil]

theorem afterDigits_append : afterDigits (digits ++ rest) = rest := by
  rw [afterDigits, List.dropWhile_append_of_pos h]
  cases rest with
  | nil => rfl
  | cons c rest => rw [List.dropWhile_cons_of_neg (by simp [hrest c rfl])]

end

/-- Digits that a number literal may start with. -/
structure Whole (digits : List Char) : Prop where
  isDigit : ∀ c ∈ digits, c.isDigit = true
  ne_nil : digits ≠ []
  zero : digits.head? = some '0' → digits = ['0']

theorem readWhole_append (h : Whole digits) (hrest : ∀ c ∈ rest.head?, c.isDigit = false) :
    readWhole (digits ++ rest) = some (digits, rest) := by
  have hrun := digitRun_append h.isDigit hrest
  have hafter := afterDigits_append h.isDigit hrest
  have hnot : ¬(digits = [] ∨ digits.head? = some '0' ∧ digits ≠ ['0']) := by
    rintro (hnil | ⟨hhead, hne⟩)
    · exact h.ne_nil hnil
    · exact hne (h.zero hhead)
  simp only [readWhole, hrun, hafter, if_neg hnot]

/-- The point and the digits after it. -/
def fractionText (digits : List Char) : List Char := if digits = [] then [] else '.' :: digits

theorem readFraction_append (h : ∀ c ∈ digits, c.isDigit = true)
    (hrest : ∀ c ∈ rest.head?, c.isDigit = false ∧ c ≠ '.') :
    readFraction (fractionText digits ++ rest) = some (digits, rest) := by
  unfold fractionText
  split
  · next hnil =>
    rw [List.nil_append, hnil]
    unfold readFraction
    split
    · next rest' =>
      exact absurd rfl (hrest '.' rfl).2
    · rfl
  · next hne =>
    have hdigit : ∀ c ∈ rest.head?, c.isDigit = false := fun c hc => (hrest c hc).1
    rw [List.cons_append, readFraction, digitRun_append h hdigit, afterDigits_append h hdigit,
      if_neg hne]

theorem readExponent_none (hrest : Delimited rest) : readExponent rest = some (0, rest) := by
  unfold readExponent
  split
  · exact absurd rfl (hrest 'e' rfl).2.2.1
  · exact absurd rfl (hrest 'E' rfl).2.2.2
  · rfl

/-- An exponent written with its sign. -/
theorem readExponent_text (exponent : ℤ) (hrest : Delimited rest) :
    readExponent ('e' :: exponentSign exponent :: numeral exponent.natAbs ++ rest) =
      some (exponent, rest) := by
  have hdigit : ∀ c ∈ rest.head?, c.isDigit = false := fun c hc => (hrest c hc).1
  have hdigits := isDigit_numeral (n := exponent.natAbs)
  have hread (negative : Bool) : readExponentDigits negative (numeral exponent.natAbs ++ rest) =
      some (if negative then -(exponent.natAbs : ℤ) else exponent.natAbs, rest) := by
    rw [readExponentDigits, digitRun_append hdigits hdigit, afterDigits_append hdigits hdigit,
      if_neg Nat.toDigits_ne_nil, magnitude_numeral]
  unfold exponentSign
  rw [List.cons_append, List.cons_append, readExponent]
  split
  · next hneg =>
    rw [readSignedExponent, hread, if_pos rfl]
    have habs : -(exponent.natAbs : ℤ) = exponent := by omega
    rw [habs]
  · next hneg =>
    rw [readSignedExponent, hread, if_neg (by decide)]
    have habs : (exponent.natAbs : ℤ) = exponent := by omega
    rw [habs]

/-- A literal in three parts denotes the number made of them. -/
theorem readMagnitude_append {whole fraction exponent : List Char} {e : ℤ}
    (hwhole : Whole whole) (hfraction : ∀ c ∈ fraction, c.isDigit = true)
    (hstart : ∀ c ∈ (exponent ++ rest).head?, c.isDigit = false ∧ c ≠ '.')
    (hexponent : readExponent (exponent ++ rest) = some (e, rest)) :
    readMagnitude (whole ++ (fractionText fraction ++ (exponent ++ rest))) =
      some ((magnitude (whole ++ fraction) : ℚ) * 10 ^ (e - fraction.length), rest) := by
  have hpoint : ∀ c ∈ (fractionText fraction ++ (exponent ++ rest)).head?, c.isDigit = false := by
    unfold fractionText
    split
    · exact fun c hc => (hstart c hc).1
    · intro c hc
      cases hc
      rfl
  have hfirst := readWhole_append hwhole hpoint
  have hsecond := readFraction_append hfraction hstart
  simp only [readMagnitude, hfirst, hsecond, hexponent, Option.bind_eq_bind, Option.bind_some,
    Option.pure_def]

/-- A literal without an exponent. -/
theorem readMagnitude_plain {whole fraction : List Char} (hwhole : Whole whole)
    (hfraction : ∀ c ∈ fraction, c.isDigit = true) (hrest : Delimited rest) :
    readMagnitude (whole ++ (fractionText fraction ++ rest)) =
      some ((magnitude (whole ++ fraction) : ℚ) * 10 ^ (-(fraction.length : ℤ)), rest) := by
  rw [← zero_sub, ← List.nil_append rest]
  exact readMagnitude_append hwhole hfraction
    (fun c hc => ⟨(hrest c hc).1, (hrest c hc).2.1⟩) (readExponent_none hrest)

/-- A sign in front of a literal. -/
theorem readNumber_signed (negative : Bool) {q : ℚ}
    (hread : readMagnitude (text ++ rest) = some (q, rest)) (hhead : text.head? ≠ some '-')
    (hne : text ≠ []) :
    readNumber (signed negative text ++ rest) = some (if negative then -q else q, rest) := by
  cases negative with
  | true =>
    change readNumber ('-' :: (text ++ rest)) = _
    rw [readNumber, hread]
    rfl
  | false =>
    change readNumber (text ++ rest) = _
    cases text with
    | nil => exact absurd rfl hne
    | cons c text =>
      rw [List.cons_append] at hread ⊢
      unfold readNumber
      split
      · next heq =>
        rw [List.cons.injEq] at heq
        exact absurd (by rw [List.head?_cons, heq.1]) hhead
      · exact hread

theorem whole_numeral (n : ℕ) : Whole (numeral n) where
  isDigit := isDigit_numeral
  ne_nil := Nat.toDigits_ne_nil
  zero := by
    intro hhead
    by_cases hn : 0 < n
    · exact absurd hhead (head_numeral hn)
    · have hzero : n = 0 := by omega
      rw [hzero]
      rfl

/-- An integer reads back as itself. -/
theorem readNumber_integer (i : ℤ) (hrest : Delimited rest) :
    readNumber (integer i ++ rest) = some ((i : ℚ), rest) := by
  have hread := readMagnitude_plain (whole_numeral i.natAbs) (List.forall_mem_nil _) hrest
  simp only [fractionText, if_pos, List.nil_append, List.append_nil, List.length_nil,
    Nat.cast_zero, neg_zero, zpow_zero, mul_one, magnitude_numeral] at hread
  rw [integer, readNumber_signed _ hread (head_numeral_ne _ rfl) Nat.toDigits_ne_nil,
    signed_natAbs]

/-! ## Decimal numbers -/

/-- The significant digits may start a literal. -/
theorem whole_digits (d : Decimal) : Whole d.digits := by
  obtain ⟨c, rest, hdigits, hzero⟩ := d.first
  constructor
  · exact d.isDigit
  · rw [hdigits]
    exact List.cons_ne_nil _ _
  · rw [hdigits, List.head?_cons]
    exact fun heq => absurd (Option.some.inj heq) hzero

/-- The first digits of a literal. -/
theorem Whole.take (h : Whole digits) (n : ℕ) : Whole (digits.take (n + 1)) := by
  obtain ⟨hdigit, hne, hzero⟩ := h
  cases digits with
  | nil => exact absurd rfl hne
  | cons c rest =>
    constructor
    · exact fun e he => hdigit e (List.mem_of_mem_take he)
    · exact List.cons_ne_nil _ _
    · rw [List.take_succ_cons, List.head?_cons]
      intro hhead
      rw [List.cons.inj (hzero hhead) |>.2, List.take_nil, Option.some.inj hhead]

/-- More digits after a first one that is not zero. -/
theorem Whole.append {more : List Char} (h : Whole digits) (hfirst : digits.head? ≠ some '0')
    (hmore : ∀ c ∈ more, c.isDigit = true) : Whole (digits ++ more) := by
  constructor
  · exact List.forall_mem_append.mpr ⟨h.isDigit, hmore⟩
  · exact List.append_ne_nil_of_left_ne_nil h.ne_nil _
  · rw [List.head?_append_of_ne_nil _ h.ne_nil]
    exact fun hhead => absurd hhead hfirst

theorem Decimal.head_ne_zero (d : Decimal) : d.digits.head? ≠ some '0' := by
  obtain ⟨c, rest, hdigits, hzero⟩ := d.first
  rw [hdigits, List.head?_cons]
  exact fun heq => hzero (Option.some.inj heq)

/-- Zeros in front of digits. -/
theorem magnitude_zeros (n : ℕ) (digits : List Char) :
    magnitude (List.replicate n '0' ++ digits) = magnitude digits := by
  induction n with
  | zero => rfl
  | succ n ih =>
    rw [List.replicate_succ, List.cons_append, magnitude, Nat.ofDigitChars_cons]
    exact ih

/-- Zeros behind digits. -/
theorem magnitude_append_zeros (digits : List Char) (n : ℕ) :
    magnitude (digits ++ List.replicate n '0') = magnitude digits * 10 ^ n := by
  induction n with
  | zero => simp
  | succ n ih =>
    rw [List.replicate_succ', ← List.append_assoc, magnitude_snoc, ih, pow_succ]
    have hzero : '0'.toNat - 48 = 0 := rfl
    rw [hzero, Nat.add_zero, Nat.mul_left_comm, Nat.mul_comm 10]

/-- Positional notation reads back as the absolute value. -/
theorem readMagnitude_positional (d : Decimal) (hrest : Delimited rest) :
    readMagnitude (positional d.digits d.exponent ++ rest) = some (d.abs, rest) := by
  have hpos := d.length_pos
  unfold positional Decimal.abs
  by_cases hneg : d.exponent < 0
  · rw [if_pos hneg]
    have hdigits : ∀ c ∈ List.replicate (-d.exponent - 1).toNat '0' ++ d.digits,
        c.isDigit = true :=
      List.forall_mem_append.mpr ⟨isDigit_replicate _, d.isDigit⟩
    have hread := readMagnitude_plain (whole_numeral 0) hdigits hrest
    have hne : List.replicate (-d.exponent - 1).toNat '0' ++ d.digits ≠ [] :=
      List.append_ne_nil_of_right_ne_nil _ (List.ne_nil_of_length_pos hpos)
    have hvalue :
        magnitude (numeral 0 ++ (List.replicate (-d.exponent - 1).toNat '0' ++ d.digits)) =
          magnitude d.digits := by
      have hall := magnitude_zeros ((-d.exponent - 1).toNat + 1) d.digits
      rw [List.replicate_succ, List.cons_append] at hall
      exact hall
    rw [fractionText, if_neg hne, hvalue, List.length_append, List.length_replicate] at hread
    refine Eq.trans hread ?_
    congr 4
    omega
  · rw [if_neg hneg]
    have hint : (d.exponent.toNat : ℤ) = d.exponent := by omega
    by_cases hlong : d.digits.length ≤ d.exponent.toNat + 1
    · rw [if_pos hlong]
      have hwhole :
          Whole (d.digits ++ List.replicate (d.exponent.toNat + 1 - d.digits.length) '0') :=
        (whole_digits d).append d.head_ne_zero (isDigit_replicate _)
      have hread := readMagnitude_plain hwhole (List.forall_mem_nil _) hrest
      rw [List.append_nil, magnitude_append_zeros] at hread
      refine Eq.trans hread ?_
      congr 2
      push_cast
      rw [mul_assoc, ← zpow_natCast, ← zpow_add₀ (by norm_num)]
      congr 2
      rw [List.length_nil]
      omega
    · rw [if_neg hlong]
      have hdigits : ∀ c ∈ d.digits.drop (d.exponent.toNat + 1), c.isDigit = true :=
        fun c hc => d.isDigit c (List.mem_of_mem_drop hc)
      have hread := readMagnitude_plain ((whole_digits d).take d.exponent.toNat) hdigits hrest
      have hne : d.digits.drop (d.exponent.toNat + 1) ≠ [] := by
        rw [Ne, List.drop_eq_nil_iff]
        exact hlong
      rw [fractionText, if_neg hne, List.take_append_drop, List.length_drop] at hread
      rw [List.append_assoc]
      refine Eq.trans hread ?_
      congr 4
      omega

/-- A mantissa with an exponent reads back as the absolute value. -/
theorem readMagnitude_exponent (d : Decimal) (hrest : Delimited rest) :
    readMagnitude (mantissa d.digits ++
        'e' :: exponentSign d.exponent :: numeral d.exponent.natAbs ++ rest) =
      some (d.abs, rest) := by
  obtain ⟨c, digits, hdigits, hzero⟩ := d.first
  have hstart : ∀ e ∈ ('e' :: exponentSign d.exponent :: numeral d.exponent.natAbs ++ rest).head?,
      e.isDigit = false ∧ e ≠ '.' := by
    intro e he
    cases he
    decide
  have hwhole : Whole (d.digits.take 1) := (whole_digits d).take 0
  have hread : readMagnitude (_ ++ (fractionText (d.digits.drop 1) ++ (_ ++ rest))) = _ :=
    readMagnitude_append hwhole (fun c hc => d.isDigit c (List.mem_of_mem_drop hc)) hstart
      (readExponent_text d.exponent hrest)
  have hmantissa : d.digits.take 1 ++ fractionText (d.digits.drop 1) = mantissa d.digits := by
    rw [hdigits]
    cases digits with
    | nil | cons => rfl
  have hpos := d.length_pos
  rw [← List.append_assoc, hmantissa, ← List.append_assoc, List.take_append_drop,
    List.length_drop] at hread
  rw [hread, Decimal.abs]
  congr 4
  omega

end Text
