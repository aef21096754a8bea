import UndoLog.Canonical.Numbers
import UndoLog.Text.Reader
import UndoLog.Types.Domain

/-!
# Canonical JSON in Rust and Python

Both encoders write compact JSON with sorted keys. They differ in what they write for keys and
strings, in how they compare keys and in the integers they have. What is hashed for a call is
the same sequence of fields in both.
-/

namespace UndoLog

open Text

mutual

/-- A `serde_json::Value` with its strings as lists of characters. -/
def Json.toValue : Json → Value (List Char) JsonNumber
  | .null => .null
  | .bool b => .bool b
  | .number n => .number n
  | .string s => .string s.toList
  | .array items => .array (Json.toItems items)
  | .object fields => .object (Json.toFields fields)

def Json.toItems : List Json → List (Value (List Char) JsonNumber)
  | [] => []
  | x :: xs => x.toValue :: Json.toItems xs

def Json.toFields : List (String × Json) → List (List Char × Value (List Char) JsonNumber)
  | [] => []
  | (k, x) :: fs => (k.toList, x.toValue) :: Json.toFields fs

end

namespace Canonical

/-- What the standard libraries do with doubles: they print the shortest digits that read back as
the double, and read the nearest one. -/
structure FloatLibrary where
  digits : FiniteF64 → Double
  read : ℚ → FiniteF64
  read_digits : ∀ x, x.isZero = false → read (digits x).value = x
  /-- Zero is read as a zero. -/
  read_zero : (read 0).isZero = true
  /-- Integers below `2^53` are doubles, and their digits are printed. -/
  read_integer : ∀ n : ℤ, n ≠ 0 → n.natAbs < 0x20000000000000 →
    (read n).isZero = false ∧ (digits (read n)).value = n

/-- The text of a double, with both zeros written alike. -/
def floatText (es6 : Decimal → List Char) (L : FloatLibrary) (x : FiniteF64) : List Char :=
  if x.isZero then ['0'] else es6 (L.digits x).toDecimal

/-! ## Strings -/

/-- The codes with an escape of two characters, and the letters of these. -/
def shortEscapes : List (ℕ × Char) :=
  [(0x22, '"'), (0x5c, '\\'), (0x08, 'b'), (0x0c, 'f'), (0x0a, 'n'), (0x0d, 'r'), (0x09, 't')]

/-- What is written for a code. Codes without a short escape are written by `other`. -/
def escapeCode (other : ℕ → List Char) (code : ℕ) : List Char :=
  match shortEscapes.lookup code with
  | some letter => ['\\', letter]
  | none => other code

/-- A code has a short escape or is written by `other`. -/
theorem escapeCode_cases (code : ℕ) :
    (∃ letter, (code, letter) ∈ shortEscapes ∧ ∀ other, escapeCode other code = ['\\', letter]) ∨
      (∀ e ∈ shortEscapes, code ≠ e.1) ∧ ∀ other, escapeCode other code = other code := by
  unfold escapeCode
  cases hlookup : shortEscapes.lookup code with
  | some letter =>
    obtain ⟨before, after, htable, -⟩ := List.lookup_eq_some_iff.mp hlookup
    exact Or.inl ⟨letter, by rw [htable]; simp, fun _ => rfl⟩
  | none =>
    have hnone := List.lookup_eq_none_iff.mp hlookup
    exact Or.inr ⟨fun e he heq => by simpa [heq] using hnone e he, fun _ => rfl⟩

/-- The UTF-8 bytes of a string. -/
def utf8 (s : List Char) : List UInt8 := s.flatMap String.utf8EncodeChar

/-! ## Rust -/

namespace Rust

/-- What `serde_json::to_string` writes for a character of a string. -/
def escapeChar (c : Char) : List Char :=
  escapeCode (fun code => if code < 0x20 then unitEscape code else [c]) c.toNat

/-- Integers are written as they are, floats by `es6_format`. -/
def number (L : FloatLibrary) : JsonNumber → List Char
  | .posInt n => numeral n.toNat
  | .negInt n => '-' :: numeral (n.toNat + 1)
  | .float x => floatText es6Format L x

/-- Keys are put between quotes as they are and sorted by their bytes. -/
def style (L : FloatLibrary) : Style (List Char) JsonNumber where
  key k := '"' :: (k ++ ['"'])
  string := quote escapeChar
  number := number L
  le k l := !decide (utf8 l < utf8 k)

/-- `canonical_json`. -/
def canonicalJson (L : FloatLibrary) (v : Json) : List Char := (style L).print v.toValue

end Rust

/-! ## Python -/

namespace Python

/-- The numbers of a JSON value. -/
inductive Number where
  | int (i : ℤ)
  | float (x : FiniteF64)

/-- The limit on the digits of an integer that is converted to a string,
`sys.get_int_max_str_digits()`. Zero turns it off, and no other limit is below 640. -/
structure Interpreter where
  maxStrDigits : ℕ
  valid : maxStrDigits = 0 ∨ 640 ≤ maxStrDigits

/-- The settings an interpreter starts with. -/
def Interpreter.initial : Interpreter := ⟨4300, by decide⟩

/-- The exceptions that the encoder and the signature can raise. -/
inductive Exception where
  /-- `ValueError: Exceeds the limit (4300 digits) for integer string conversion`. -/
  | tooManyDigits (limit : ℕ)
  /-- `struct.error: 'I' format requires 0 <= number <= 4294967295`. -/
  | packRange

/-- What is written for a character of a string or a key. -/
def escapeChar (c : Char) : List Char :=
  escapeCode (fun code =>
    if code < 0x20 then unitEscape code
    else if code < 0x80 then [c]
    else if code ≤ 0xffff then unitEscape code
    else unitEscape (highHalf code) ++ unitEscape (lowHalf code)) c.toNat

/-- `_escape_json_string`. -/
def escapeJsonString (s : List Char) : List Char := quote escapeChar s

/-- The number of a `serde_json::Number`. -/
def ofJson : JsonNumber → Number
  | .posInt n => .int n.toNat
  | .negInt n => .int (Int.negSucc n.toNat)
  | .float x => .float x

variable (P : Interpreter) (L : FloatLibrary)

/-- The digits of an integer are within the limit. -/
def Interpreter.Fits : Number → Prop
  | .int i => P.maxStrDigits = 0 ∨ (numeral i.natAbs).length ≤ P.maxStrDigits
  | .float _ => True

instance (n : Number) : Decidable (P.Fits n) := by
  cases n <;> unfold Interpreter.Fits <;> infer_instance

/-- The text of a number, where it has one. -/
def numberText : Number → List Char
  | .int i => integer i
  | .float x => floatText es6Float L x

/-- `str` of an integer and `_es6_float` of a float. -/
def number (n : Number) : Except Exception (List Char) :=
  if P.Fits n then .ok (numberText L n) else .error (.tooManyDigits P.maxStrDigits)

/-- Keys and strings are escaped alike, and keys are sorted by their code points. -/
def style : Style (List Char) Number where
  key := escapeJsonString
  string := escapeJsonString
  number := numberText L
  le k l := !decide (l < k)

mutual

/-- `canonical_json`. -/
def canonicalJson : Value (List Char) Number → Except Exception (List Char)
  | .null => .ok "null".toList
  | .bool b => .ok (if b then "true".toList else "false".toList)
  | .number n => number P L n
  | .string s => .ok (escapeJsonString s)
  | .array items => do
    let inner ← canonicalItems items
    pure ('[' :: (commas inner ++ [']']))
  | .object fields => do
    let pairs ← canonicalPairs fields
    pure ('{' :: (commas (((style L).arrange pairs).map (style L).field) ++ ['}']))

def canonicalItems : List (Value (List Char) Number) → Except Exception (List (List Char))
  | [] => .ok []
  | x :: xs => do
    let text ← canonicalJson x
    let rest ← canonicalItems xs
    pure (text :: rest)

def canonicalPairs :
    List (List Char × Value (List Char) Number) → Except Exception (List (List Char × List Char))
  | [] => .ok []
  | (k, x) :: fs => do
    let text ← canonicalJson x
    let rest ← canonicalPairs fs
    pure ((k, text) :: rest)

end

/-- All integers of a value are within the limit. -/
def Fits (v : Value (List Char) Number) : Prop :=
  v.All (fun _ => True) (fun _ => True) P.Fits

variable {P L} {items : List (Value (List Char) Number)}
  {fields : List (List Char × Value (List Char) Number)}

theorem canonicalItems_ok (h : ∀ x ∈ items, canonicalJson P L x = .ok ((style L).print x)) :
    canonicalItems P L items = .ok (items.map (style L).print) := by
  induction items with
  | nil => rfl
  | cons x xs ih =>
    have hrest := ih fun y hy => h y (List.mem_cons_of_mem _ hy)
    rw [canonicalItems, h x (by simp), hrest]
    rfl

theorem canonicalPairs_ok (h : ∀ f ∈ fields, canonicalJson P L f.2 = .ok ((style L).print f.2)) :
    canonicalPairs P L fields = .ok (fields.map fun f => (f.1, (style L).print f.2)) := by
  induction fields with
  | nil => rfl
  | cons f fs ih =>
    have hrest := ih fun g hg => h g (List.mem_cons_of_mem _ hg)
    rw [canonicalPairs, h f (by simp), hrest]
    rfl

/-- Within the limit nothing is raised. -/
theorem canonicalJson_ok (P : Interpreter) (L : FloatLibrary) (v : Value (List Char) Number)
    (hv : Fits P v) : canonicalJson P L v = .ok ((style L).print v) := by
  unfold Fits at hv
  induction v using Value.induct with
  | null | bool | string => rfl
  | number n => exact if_pos hv
  | array items ih =>
    simp only [Value.All, Value.allItems_iff] at hv
    have hitems := canonicalItems_ok fun x hx => ih x hx (hv x hx)
    rw [canonicalJson, hitems, Style.print, Style.printItems_eq]
    rfl
  | object fields ih =>
    simp only [Value.All, Value.allFields_iff] at hv
    have hfields := canonicalPairs_ok fun f hf => ih f hf (hv.2 f hf)
    rw [canonicalJson, hfields, Style.print, Style.printFields_eq]
    rfl

theorem canonicalItems_error {x : Value (List Char) Number} (hx : x ∈ items)
    (h : ∃ e, canonicalJson P L x = .error e) : ∃ e, canonicalItems P L items = .error e := by
  induction items with
  | nil => cases hx
  | cons y ys ih =>
    rw [canonicalItems]
    cases hy : canonicalJson P L y with
    | error e => exact ⟨e, rfl⟩
    | ok text =>
      have hmem : x ∈ ys := by
        rcases List.mem_cons.mp hx with rfl | hmem
        · obtain ⟨e, he⟩ := h
          rw [hy] at he
          cases he
        · exact hmem
      obtain ⟨e, he⟩ := ih hmem
      exact ⟨e, by rw [he]; rfl⟩

theorem canonicalPairs_error {f : List Char × Value (List Char) Number} (hf : f ∈ fields)
    (h : ∃ e, canonicalJson P L f.2 = .error e) : ∃ e, canonicalPairs P L fields = .error e := by
  induction fields with
  | nil => cases hf
  | cons g gs ih =>
    rw [canonicalPairs]
    cases hg : canonicalJson P L g.2 with
    | error e => exact ⟨e, rfl⟩
    | ok text =>
      have hmem : f ∈ gs := by
        rcases List.mem_cons.mp hf with rfl | hmem
        · obtain ⟨e, he⟩ := h
          rw [hg] at he
          cases he
        · exact hmem
      obtain ⟨e, he⟩ := ih hmem
      exact ⟨e, by rw [he]; rfl⟩

theorem canonicalJson_error (P : Interpreter) (L : FloatLibrary) (v : Value (List Char) Number)
    (hv : ¬Fits P v) : ∃ e, canonicalJson P L v = .error e := by
  unfold Fits at hv
  induction v using Value.induct with
  | null | bool | string => exact absurd trivial hv
  | number n => exact ⟨_, if_neg hv⟩
  | array items ih =>
    simp only [Value.All, Value.allItems_iff, not_forall] at hv
    obtain ⟨x, hx, hbad⟩ := hv
    obtain ⟨e, he⟩ := canonicalItems_error hx (ih x hx hbad)
    exact ⟨e, by rw [canonicalJson, he]; rfl⟩
  | object fields ih =>
    simp only [Value.All, Value.allFields_iff, true_and, not_forall] at hv
    obtain ⟨f, hf, hbad⟩ := hv
    obtain ⟨e, he⟩ := canonicalPairs_error hf (ih f hf hbad)
    exact ⟨e, by rw [canonicalJson, he]; rfl⟩

/-- A text is produced exactly within the limit. -/
theorem canonicalJson_eq_ok_iff (P : Interpreter) (L : FloatLibrary) (v : Value (List Char) Number)
    (text : List Char) : canonicalJson P L v = .ok text ↔ Fits P v ∧ text = (style L).print v := by
  by_cases hv : Fits P v
  · rw [canonicalJson_ok P L v hv, Except.ok.injEq]
    exact ⟨fun h => ⟨hv, h.symm⟩, fun h => h.2.symm⟩
  · obtain ⟨e, he⟩ := canonicalJson_error P L v hv
    rw [he]
    exact ⟨by rintro ⟨⟩, fun h => absurd h.1 hv⟩

end Python

/-- Rust and Python write the same numbers. -/
theorem Rust.number_eq (L : FloatLibrary) (n : JsonNumber) :
    Rust.number L n = Python.numberText L (Python.ofJson n) := by
  cases n with
  | posInt n => rfl
  | negInt n =>
    change _ = integer (Int.negSucc n.toNat)
    rw [integer, decide_eq_true (Int.negSucc_lt_zero _)]
    rfl
  | float x =>
    change floatText Rust.es6Format L x = floatText Python.es6Float L x
    unfold floatText
    rw [Rust.es6Format_eq, Python.es6Float_eq]

end Canonical

end UndoLog
