import Mathlib.Data.List.DropRight

/-!
# Reading from a byte stream

A stream is the list of the bytes that are still to come. A line is read up to its line feed or
up to a limit, bytes are discarded in pieces, and an integer is read from its digits.
-/

namespace Text.Stream

/-- Bytes, the first one first. -/
abbrev Bytes : Type := List UInt8

/-! ## Lines -/

/-- The next line with its line feed, or as much of it as the limit allows, and what is left. -/
def readline : ℕ → Bytes → Bytes × Bytes
  | 0, s => ([], s)
  | _ + 1, [] => ([], [])
  | limit + 1, b :: s =>
    if b = 10 then ([b], s)
    else (b :: (readline limit s).1, (readline limit s).2)

/-- A line that fits is read as a whole. -/
theorem readline_line {line : Bytes} (hline : (10 : UInt8) ∉ line) {limit : ℕ}
    (hlimit : line.length < limit) (rest : Bytes) :
    readline limit (line ++ 10 :: rest) = (line ++ [10], rest) := by
  induction line generalizing limit with
  | nil =>
    cases limit with
    | zero => cases hlimit
    | succ limit => rfl
  | cons b line ih =>
    cases limit with
    | zero => cases hlimit
    | succ limit =>
      have hb : b ≠ 10 := by
        rintro rfl
        exact hline (by simp)
      have hrest : (10 : UInt8) ∉ line := fun hmem => hline (List.mem_cons_of_mem b hmem)
      have hlength : line.length < limit := by
        rw [List.length_cons] at hlimit
        omega
      rw [List.cons_append, readline, if_neg hb, ih hrest hlength]
      rfl

/-! ## Numbers of bytes -/

/-- A number of bytes, fewer at the end of the stream. A negative number asks for all. -/
def read (n : ℤ) (s : Bytes) : Bytes × Bytes :=
  if n < 0 then (s, []) else (s.take n.toNat, s.drop n.toNat)

theorem read_append (data rest : Bytes) : read data.length (data ++ rest) = (data, rest) := by
  have hnonneg : ¬ (data.length : ℤ) < 0 := by omega
  rw [read, if_neg hnonneg]
  simp

/-- Discard a number of bytes in pieces: how many were missing at the end of the stream, and what is
left. The first argument bounds the number of pieces. -/
def drain (piece : ℕ) : ℕ → ℕ → Bytes → ℕ × Bytes
  | 0, remaining, s => (remaining, s)
  | pieces + 1, remaining, s =>
    if remaining = 0 then (0, s)
    else
      let chunk := s.take (min remaining piece)
      if chunk = [] then (remaining, s)
      else drain piece pieces (remaining - chunk.length) (s.drop (min remaining piece))

theorem drain_eq {piece : ℕ} (hpiece : 0 < piece) {pieces remaining : ℕ} (h : remaining ≤ pieces)
    (s : Bytes) : drain piece pieces remaining s = (remaining - s.length, s.drop remaining) := by
  induction pieces generalizing remaining s with
  | zero =>
    obtain rfl : remaining = 0 := by omega
    simp [drain]
  | succ pieces ih =>
    by_cases hzero : remaining = 0
    · subst hzero
      simp [drain]
    · cases s with
      | nil =>
        rw [drain, if_neg hzero]
        simp
      | cons b s =>
        have hmin : 0 < min remaining piece := by omega
        have hchunk : (b :: s).take (min remaining piece) ≠ [] := by
          simp only [ne_eq, List.take_eq_nil_iff, reduceCtorEq, or_false]
          omega
        have hlength : 0 < ((b :: s).take (min remaining piece)).length :=
          List.length_pos_iff.mpr hchunk
        rw [drain, if_neg hzero]
        dsimp only
        rw [if_neg hchunk, ih (by omega)]
        simp only [List.length_take, List.length_drop, List.drop_drop, Prod.mk.injEq]
        by_cases hlong : min remaining piece ≤ (b :: s).length
        · rw [Nat.min_eq_left hlong]
          exact ⟨by omega, by congr 1; omega⟩
        · have hshort : (b :: s).length ≤ min remaining piece := by omega
          refine ⟨by omega, ?_⟩
          rw [List.drop_eq_nil_of_le (by omega), List.drop_eq_nil_of_le (by omega)]

/-! ## Integers -/

/-- The value of a hexadecimal digit. -/
def digitValue (b : UInt8) : Option ℕ :=
  if 48 ≤ b ∧ b ≤ 57 then some (b.toNat - 48)
  else if 97 ≤ b ∧ b ≤ 102 then some (b.toNat - 87)
  else if 65 ≤ b ∧ b ≤ 70 then some (b.toNat - 55)
  else none

/-- The value of a digit in a base up to sixteen. -/
def digitIn (base : ℕ) (b : UInt8) : Option ℕ := (digitValue b).filter (· < base)

/-- The number that digits continue. One underscore may stand before each of them. -/
def moreDigits (base : ℕ) : ℕ → Bytes → Option ℕ
  | n, [] => some n
  | n, [b] => (digitIn base b).map fun d => n * base + d
  | n, b :: b' :: s =>
    if b = 95 then (digitIn base b').bind fun d => moreDigits base (n * base + d) s
    else (digitIn base b).bind fun d => moreDigits base (n * base + d) (b' :: s)

/-- The number of a text of digits. -/
def digits (base : ℕ) : Bytes → Option ℕ
  | [] => none
  | b :: s => (digitIn base b).bind fun d => moreDigits base d s

/-- The value of digits in positional notation. -/
def valueFrom (base : ℕ) (n : ℕ) (s : Bytes) : ℕ :=
  s.foldl (fun n b => n * base + (digitIn base b).getD 0) n

/-- A text of digits of a base. -/
def IsNumeral (base : ℕ) (s : Bytes) : Prop := s ≠ [] ∧ ∀ b ∈ s, (digitIn base b).isSome = true

theorem digitIn_underscore (base : ℕ) : digitIn base 95 = none := rfl

variable {base : ℕ} {s : Bytes} {b : UInt8}

theorem moreDigits_eq (h : ∀ b ∈ s, (digitIn base b).isSome = true) (n : ℕ) :
    moreDigits base n s = some (valueFrom base n s) := by
  induction s generalizing n with
  | nil => rfl
  | cons b s ih =>
    obtain ⟨d, hd⟩ := Option.isSome_iff_exists.mp (h b (by simp))
    have hrest := ih (fun b' hb' => h b' (List.mem_cons_of_mem b hb')) (n * base + d)
    have hvalue : valueFrom base n (b :: s) = valueFrom base (n * base + d) s := by
      rw [valueFrom, List.foldl_cons, hd]
      rfl
    rw [hvalue, ← hrest]
    cases s with
    | nil =>
      change (digitIn base b).map (fun d => n * base + d) = some (n * base + d)
      rw [hd]
      rfl
    | cons b' s =>
      have hb : b ≠ 95 := by
        rintro rfl
        rw [digitIn_underscore] at hd
        cases hd
      rw [moreDigits, if_neg hb, hd]
      rfl

theorem digits_numeral (h : IsNumeral base s) : digits base s = some (valueFrom base 0 s) := by
  obtain ⟨hne, hdigits⟩ := h
  cases s with
  | nil => exact absurd rfl hne
  | cons b s =>
    obtain ⟨d, hd⟩ := Option.isSome_iff_exists.mp (hdigits b (by simp))
    have hrest := moreDigits_eq (fun b' hb' => hdigits b' (List.mem_cons_of_mem b hb')) d
    rw [digits, hd, Option.bind_some, hrest, valueFrom, valueFrom, List.foldl_cons, hd]
    simp

/-! ## White space -/

/-- White space. -/
def isSpace (b : UInt8) : Bool := b = 32 || 9 ≤ b && b ≤ 13

/-- Without the white space at both ends. -/
def strip (s : Bytes) : Bytes := (s.dropWhile isSpace).rdropWhile isSpace

/-- White space after a text without any is stripped. -/
theorem strip_append {spaces : Bytes} (hs : ∀ b ∈ s, isSpace b = false)
    (hspaces : ∀ b ∈ spaces, isSpace b = true) : strip (s ++ spaces) = s := by
  have hright : (s ++ spaces).rdropWhile isSpace = s := by
    rw [List.rdropWhile, List.reverse_append,
      List.dropWhile_append_of_pos (by simpa using hspaces)]
    cases hlast : s.reverse with
    | nil => simpa using hlast
    | cons b rest =>
      have hb : isSpace b = false := hs b (by rw [← List.mem_reverse, hlast]; simp)
      rw [List.dropWhile_cons_of_neg (by simp [hb]), ← hlast, List.reverse_reverse]
  cases s with
  | nil =>
    have hnil : spaces.dropWhile isSpace = [] := List.dropWhile_eq_nil_iff.mpr hspaces
    rw [strip, List.nil_append, hnil]
    rfl
  | cons b s =>
    have hb : isSpace b = false := hs b (by simp)
    rw [strip, List.cons_append, List.dropWhile_cons_of_neg (by simp [hb])]
    exact hright

theorem le_of_digitIn (h : (digitIn base b).isSome = true) : 48 ≤ b.toNat := by
  have hvalue : (digitValue b).isSome = true := by
    cases hvalue : digitValue b with
    | none =>
      rw [digitIn, hvalue] at h
      cases h
    | some d => rfl
  by_contra hlow
  have hnone : digitValue b = none := by
    simp only [digitValue, UInt8.le_iff_toNat_le]
    rw [if_neg, if_neg, if_neg]
    all_goals
      rintro ⟨hle, -⟩
      have hle' : _ ≤ b.toNat := hle
      simp at hle'
      omega
  rw [hnone] at hvalue
  cases hvalue

/-- A digit is not white space. -/
theorem isSpace_of_digitIn (h : (digitIn base b).isSome = true) : isSpace b = false := by
  have hle := le_of_digitIn h
  have h32 : b ≠ 32 := by
    rintro rfl
    simp at hle
  have h13 : ¬ b ≤ 13 := by
    intro hb
    have hb' : b.toNat ≤ 13 := UInt8.le_iff_toNat_le.mp hb
    omega
  simp [isSpace, h32, h13]

end Text.Stream
