import UndoLog.Canonical.Encoders

/-!
# Canonical JSON in TypeScript

Strings are sequences of UTF-16 code units. The encoder escapes them unit by unit and compares
keys by code points, which it reads from the units. Numbers are doubles or big integers.
-/

namespace UndoLog.Canonical

open Text

/-- The code units of a character. -/
def charUnits (c : Char) : List UInt16 :=
  if c.toNat < 0x10000 then [UInt16.ofNat c.toNat]
  else [UInt16.ofNat (highHalf c.toNat), UInt16.ofNat (lowHalf c.toNat)]

/-- The code units of a string. -/
def utf16 (s : List Char) : List UInt16 := s.flatMap charUnits

namespace TypeScript

/-- `codePointAt` at a unit and the units after it. -/
def codePointAt (unit : UInt16) (rest : List UInt16) : ℕ :=
  match rest with
  | [] => unit.toNat
  | next :: _ =>
    if IsHigh unit.toNat ∧ IsLow next.toNat then
      0x10000 + (unit.toNat - 0xd800) * 0x400 + (next.toNat - 0xdc00)
    else unit.toNat

/-- How many units after the first one belong to a code point. -/
def extraUnits (codePoint : ℕ) : ℕ := if 0xffff < codePoint then 1 else 0

/-- The loop of `compareByCodePoint` on what is left of the two strings. -/
def compareLoop (aLen bLen : ℕ) (a b : List UInt16) (aCount bCount : ℕ) : ℤ :=
  match a, b with
  | x :: a', y :: b' =>
    let aCp := codePointAt x a'
    let bCp := codePointAt y b'
    if aCp ≠ bCp then aCp - bCp
    else compareLoop aLen bLen (a'.drop (extraUnits aCp)) (b'.drop (extraUnits bCp))
      (aCount + 1) (bCount + 1)
  | _, _ =>
    if (aCount : ℤ) - bCount ≠ 0 then aCount - bCount else aLen - bLen
termination_by a.length
decreasing_by
  rw [List.length_drop, List.length_cons]
  omega

/-- `compareByCodePoint`. -/
def compareByCodePoint (a b : List UInt16) : ℤ := compareLoop a.length b.length a b 0 0

/-- What is written for a code unit. The branch of the source for larger codes is never
taken, since `charCodeAt` returns a unit. -/
def escapeUnit (unit : UInt16) : List Char :=
  escapeCode (fun code =>
    if code < 0x20 then unitEscape code
    else if code < 0x80 then [Char.ofNat code]
    else unitEscape code) unit.toNat

/-- `escapeJsonString`. -/
def escapeJsonString (s : List UInt16) : List Char := '"' :: (s.flatMap escapeUnit ++ ['"'])

/-- The numbers of a JSON value. -/
inductive Number where
  | number (x : FiniteF64)
  | bigint (i : ℤ)

/-- `JSON.stringify` of a number and `toString` of a big integer. -/
def numberText (L : FloatLibrary) : Number → List Char
  | .number x => floatText numberToString L x
  | .bigint i => integer i

def style (L : FloatLibrary) : Style (List UInt16) Number where
  key := escapeJsonString
  string := escapeJsonString
  number := numberText L
  le k l := compareByCodePoint k l ≤ 0

/-- `canonicalJson`. -/
def canonicalJson (L : FloatLibrary) (v : Value (List UInt16) Number) : List Char :=
  (style L).print v

/-! ## Strings -/

theorem toNat_ofNat_unit {n : ℕ} (hn : n < 0x10000) : (UInt16.ofNat n).toNat = n := by
  rw [UInt16.toNat_ofNat']
  omega

theorem not_isHigh_char (c : Char) : ¬IsHigh c.toNat := by
  have hvalid : c.toNat < 0xd800 ∨ 0xdfff < c.toNat := c.valid.imp id And.left
  unfold IsHigh
  omega

theorem utf16_cons (c : Char) (s : List Char) : ∃ unit rest, utf16 (c :: s) = unit :: rest ∧
    codePointAt unit rest = c.toNat ∧ rest.drop (extraUnits c.toNat) = utf16 s := by
  by_cases hunit : c.toNat < 0x10000
  · have hunits : utf16 (c :: s) = UInt16.ofNat c.toNat :: utf16 s := by
      rw [utf16, List.flatMap_cons, charUnits, if_pos hunit]
      rfl
    refine ⟨_, _, hunits, ?_, ?_⟩
    · have hhigh := not_isHigh_char c
      unfold codePointAt
      rw [toNat_ofNat_unit hunit]
      split
      · rfl
      · rw [if_neg fun h => hhigh h.1]
    · rw [extraUnits, if_neg (by omega)]
      rfl
  · have hbound := toNat_lt c
    have hhigh := isHigh_highHalf (by omega : 0x10000 ≤ c.toNat) hbound
    have hlow := isLow_lowHalf c.toNat
    have hunits : utf16 (c :: s) =
        UInt16.ofNat (highHalf c.toNat) :: UInt16.ofNat (lowHalf c.toNat) :: utf16 s := by
      rw [utf16, List.flatMap_cons, charUnits, if_neg hunit]
      rfl
    refine ⟨_, _, hunits, ?_, ?_⟩
    · have hfirst : highHalf c.toNat < 0x10000 := by
        unfold IsHigh at hhigh
        omega
      have hsecond : lowHalf c.toNat < 0x10000 := by
        unfold IsLow at hlow
        omega
      unfold codePointAt
      dsimp only
      rw [toNat_ofNat_unit hfirst, toNat_ofNat_unit hsecond, if_pos ⟨hhigh, hlow⟩]
      unfold highHalf lowHalf
      omega
    · rw [extraUnits, if_pos (by omega)]
      rfl

theorem escapeUnit_of_ge {n : ℕ} (hlow : 0x80 ≤ n) (hhigh : n < 0x10000) :
    escapeUnit (UInt16.ofNat n) = unitEscape n := by
  have hshort : ∀ e ∈ shortEscapes, e.1 < 0x80 := by decide
  unfold escapeUnit
  rw [toNat_ofNat_unit hhigh]
  rcases escapeCode_cases n with ⟨letter, hmem, -⟩ | ⟨-, heq⟩
  · have hlt := hshort _ hmem
    dsimp only at hlt
    omega
  · rw [heq, if_neg (by omega), if_neg (by omega)]

theorem escapeUnit_charUnits (c : Char) :
    (charUnits c).flatMap escapeUnit = Python.escapeChar c := by
  have hbound := toNat_lt c
  unfold charUnits
  by_cases hunit : c.toNat < 0x10000
  · rw [if_pos hunit, List.flatMap_singleton]
    unfold escapeUnit Python.escapeChar
    rw [toNat_ofNat_unit hunit]
    rcases escapeCode_cases c.toNat with ⟨letter, hmem, heq⟩ | ⟨-, heq⟩
    · rw [heq, heq]
    · rw [heq, heq, Char.ofNat_toNat, if_pos (by omega : c.toNat ≤ 0xffff)]
  · rw [if_neg hunit]
    have hhigh := isHigh_highHalf (by omega : 0x10000 ≤ c.toNat) hbound
    have hlow := isLow_lowHalf c.toNat
    unfold IsHigh at hhigh
    unfold IsLow at hlow
    have hpython : Python.escapeChar c =
        unitEscape (highHalf c.toNat) ++ unitEscape (lowHalf c.toNat) := by
      have hshort : ∀ e ∈ shortEscapes, e.1 < 0x80 := by decide
      unfold Python.escapeChar
      rcases escapeCode_cases c.toNat with ⟨letter, hmem, -⟩ | ⟨-, heq⟩
      · have hlt := hshort _ hmem
        dsimp only at hlt
        omega
      · rw [heq, if_neg (by omega), if_neg (by omega), if_neg (by omega)]
    rw [hpython, List.flatMap_cons, List.flatMap_singleton, escapeUnit_of_ge (by omega) (by omega),
      escapeUnit_of_ge (by omega) (by omega)]

theorem escapeJsonString_utf16 (s : List Char) :
    escapeJsonString (utf16 s) = Python.escapeJsonString s := by
  have hflat : (utf16 s).flatMap escapeUnit = s.flatMap Python.escapeChar := by
    induction s with
    | nil => rfl
    | cons c s ih =>
      rw [utf16, List.flatMap_cons, List.flatMap_append, escapeUnit_charUnits, List.flatMap_cons]
      exact congrArg _ ih
  rw [escapeJsonString, hflat]
  rfl

/-! ## The order of keys -/

theorem length_utf16_cons (c : Char) (s : List Char) :
    (utf16 (c :: s)).length = (charUnits c).length + (utf16 s).length := by
  rw [utf16, List.flatMap_cons, List.length_append]
  rfl

theorem utf16_ne_nil (c : Char) (s : List Char) : 0 < (utf16 (c :: s)).length := by
  obtain ⟨unit, rest, hunits, -⟩ := utf16_cons c s
  rw [hunits, List.length_cons]
  omega

/-- The lengths that the loop has left decide between strings one of which starts with the
other. -/
theorem compareLoop_utf16 (a b : List Char) (n count : ℕ) :
    (compareLoop (n + (utf16 a).length) (n + (utf16 b).length) (utf16 a) (utf16 b) count count < 0
        ↔ a < b) ∧
      (compareLoop (n + (utf16 a).length) (n + (utf16 b).length) (utf16 a) (utf16 b) count count = 0
        ↔ a = b) := by
  induction a generalizing b n count with
  | nil =>
    have hend : compareLoop (n + (utf16 []).length) (n + (utf16 b).length) [] (utf16 b) count
        count = -((utf16 b).length : ℤ) := by
      rw [compareLoop, if_neg (by omega)]
      · change ((n + 0 : ℕ) : ℤ) - _ = _
        omega
      · rintro x a' y b' ⟨⟩
    change (compareLoop _ _ [] (utf16 b) count count < 0 ↔ _) ∧
      (compareLoop _ _ [] (utf16 b) count count = 0 ↔ _)
    rw [hend]
    cases b with
    | nil => exact ⟨iff_of_false (by decide) (List.not_lt_nil _), iff_of_true rfl rfl⟩
    | cons d b =>
      have hpos := utf16_ne_nil d b
      exact ⟨iff_of_true (by omega) (List.nil_lt_cons _ _),
        iff_of_false (by omega) (by rintro ⟨⟩)⟩
  | cons c a ih =>
    cases b with
    | nil =>
      have hpos := utf16_ne_nil c a
      obtain ⟨x, a', ha, -⟩ := utf16_cons c a
      have hend : compareLoop (n + (utf16 (c :: a)).length) (n + (utf16 []).length) (utf16 (c :: a))
          (utf16 []) count count = ((utf16 (c :: a)).length : ℤ) := by
        rw [ha]
        change compareLoop _ (n + 0) _ [] count count = _
        rw [compareLoop, if_neg (by omega)]
        · omega
        · rintro z c' y b' - ⟨⟩
      rw [hend]
      exact ⟨iff_of_false (by omega) (List.not_lt_nil _), iff_of_false (by omega) (by rintro ⟨⟩)⟩
    | cons d b =>
      obtain ⟨x, a', ha, hax, harest⟩ := utf16_cons c a
      obtain ⟨y, b', hb, hby, hbrest⟩ := utf16_cons d b
      have hstep : ∀ aLen bLen, compareLoop aLen bLen (utf16 (c :: a)) (utf16 (d :: b)) count
          count = if c.toNat ≠ d.toNat then (c.toNat : ℤ) - d.toNat
          else compareLoop aLen bLen (utf16 a) (utf16 b) (count + 1) (count + 1) := by
        intro aLen bLen
        rw [ha, hb, compareLoop]
        simp only [hax, hby, harest, hbrest]
      rw [hstep, List.cons_lt_cons_iff, List.cons.injEq]
      by_cases hcd : c = d
      · subst hcd
        have hrest := ih b (n + (charUnits c).length) (count + 1)
        rw [add_assoc, ← length_utf16_cons, add_assoc, ← length_utf16_cons] at hrest
        rw [if_neg (by simp), hrest.1, hrest.2]
        exact ⟨by simp, by simp⟩
      · have hne : c.toNat ≠ d.toNat := fun heq => hcd (Char.toNat_inj.mp heq)
        have hlt : c < d ↔ c.toNat < d.toNat := Iff.rfl
        rw [if_pos hne, hlt]
        exact ⟨⟨fun h => Or.inl (by omega), fun h => h.elim (fun h => by omega)
          fun h => absurd h.1 hcd⟩, iff_of_false (by omega) fun h => hcd h.1⟩

theorem compareByCodePoint_utf16 (a b : List Char) :
    (compareByCodePoint (utf16 a) (utf16 b) < 0 ↔ a < b) ∧
      (compareByCodePoint (utf16 a) (utf16 b) = 0 ↔ a = b) := by
  have hloop := compareLoop_utf16 a b 0 0
  rwa [zero_add, zero_add] at hloop

theorem le_utf16 (L : FloatLibrary) (k l : List Char) :
    (style L).le (utf16 k) (utf16 l) = (Python.style L).le k l := by
  obtain ⟨hlt, heq⟩ := compareByCodePoint_utf16 k l
  change decide (compareByCodePoint (utf16 k) (utf16 l) ≤ 0) = !decide (l < k)
  rw [← decide_not, decide_eq_decide]
  constructor
  · intro hle
    rcases lt_or_eq_of_le hle with h | h
    · exact List.lt_asymm (hlt.mp h)
    · rw [heq.mp h]
      exact List.lt_irrefl l
  · intro hle
    by_cases hkl : k = l
    · exact (heq.mpr hkl).le
    · have hkl' : k < l := by
        by_contra hnot
        exact hkl (List.le_antisymm (List.not_lt.mp hle) (List.not_lt.mp hnot))
      exact (hlt.mpr hkl').le

end TypeScript

end UndoLog.Canonical
