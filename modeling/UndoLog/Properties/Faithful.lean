import UndoLog.Canonical.Doubles
import UndoLog.Canonical.Reading
import UndoLog.Canonical.Signature

/-!
# What the canonical JSON of Rust tells about a value

Keys are written between quotes without escapes. As long as no key contains a quote in front
of a colon, the text tells the value. A key that contains more of the text of an object can
stand for several entries.
-/

namespace UndoLog.Canonical.Rust

open Text

/-- Integers are the same if they are equal. A float is the same as a number that is read as
it. -/
def SameNumber (L : FloatLibrary) (m n : JsonNumber) : Prop :=
  match Python.ofJson m, Python.ofJson n with
  | .int i, .int j => i = j
  | .int i, .float y => (L.read i).eq y = true
  | .float x, .int j => (L.read j).eq x = true
  | .float x, .float y => x.eq y = true

theorem eq_of_eq_eq {r x y : FiniteF64} (hx : r.eq x = true) (hy : r.eq y = true) :
    x.eq y = true := by
  rw [eq_iff] at *
  rcases hx with rfl | hx
  · exact hy
  · rcases hy with rfl | hy
    · exact Or.inr ⟨hx.2, hx.1⟩
    · exact Or.inr ⟨hx.2, hy.2⟩

theorem sameNumber_of_denoted {L : FloatLibrary} {m n : JsonNumber}
    (h : denoted L m = denoted L n) : SameNumber L m n := by
  unfold denoted at h
  unfold SameNumber
  cases hm : Python.ofJson m with
  | int i =>
    cases hn : Python.ofJson n with
    | int j =>
      rw [hm, hn] at h
      exact Int.cast_injective h
    | float y =>
      have hvalue : (i : ℚ) = floatValue L y := by rwa [hm, hn] at h
      change (L.read i).eq y = true
      rw [hvalue]
      exact read_floatValue L y
  | float x =>
    cases hn : Python.ofJson n with
    | int j =>
      have hvalue : floatValue L x = j := by rwa [hm, hn] at h
      change (L.read j).eq x = true
      rw [← hvalue]
      exact read_floatValue L x
    | float y =>
      have hvalue : floatValue L x = floatValue L y := by rwa [hm, hn] at h
      exact eq_of_eq_eq (hvalue ▸ read_floatValue L x) (read_floatValue L y)

/-- Every key of a value is told from what follows it. -/
def SeparableKeys (v : Json) : Prop :=
  v.toValue.All (Value.AllKeys Separable) (fun _ => True) fun _ => True

/-- Values with separable keys and the same text are equal up to the order of entries and up
to floats that are written as integers. So are arguments whose calls hash the same bytes. -/
theorem canonicalJson_faithful (L : FloatLibrary) (a b : Json) (ha : SeparableKeys a)
    (hb : SeparableKeys b) :
    (canonicalJson L a = canonicalJson L b → a.toValue.Matches (SameNumber L) b.toValue) ∧
      ∀ session step tool, preimage L session step tool a = preimage L session step tool b →
        a.toValue.Matches (SameNumber L) b.toValue := by
  have htext : canonicalJson L a = canonicalJson L b →
      a.toValue.Matches (SameNumber L) b.toValue := by
    intro heq
    have hreada := Reader.parse_print (reads L) a.toValue ha
    have hreadb := Reader.parse_print (reads L) b.toValue hb
    have hsorted := Option.some.inj (hreada.symm.trans ((congrArg _ heq).trans hreadb))
    exact Value.matches_of_sorted_eq (style L) (style L) (fun m n => sameNumber_of_denoted) _ _
      hsorted
  refine ⟨htext, fun session step tool heq => htext ?_⟩
  refine utf8_injective (List.append_inj heq ?_).2
  simp only [List.length_append, le32, List.length_cons]

/-- Two entries. -/
def twoEntries : Json := .object [("a", .number (.posInt 1)), ("b", .number (.posInt 2))]

/-- The two entries in the other order. -/
def swappedEntries : Json := .object [("b", .number (.posInt 2)), ("a", .number (.posInt 1))]

/-- The text of two entries tells them up to their order. -/
theorem twoEntries_faithful : SeparableKeys twoEntries ∧ SeparableKeys swappedEntries ∧
    twoEntries.toValue.Matches (SameNumber FloatLibrary.standard) swappedEntries.toValue := by
  have hkeys : SeparableKeys twoEntries := ⟨by decide, trivial, trivial, trivial⟩
  have hswapped : SeparableKeys swappedEntries := ⟨by decide, trivial, trivial, trivial⟩
  exact ⟨hkeys, hswapped,
    (canonicalJson_faithful FloatLibrary.standard _ _ hkeys hswapped).1 rfl⟩

/-- One entry with the text of two. -/
def oneEntry : Json := .object [("a\":1,\"b", .number (.posInt 2))]

/-- An object of two entries and an object of one have the same text, and calls with them hash
the same bytes. -/
theorem key_collision :
    canonicalJson FloatLibrary.standard twoEntries = canonicalJson FloatLibrary.standard oneEntry ∧
      preimage FloatLibrary.standard ⟨0⟩ 0 "tool" twoEntries =
        preimage FloatLibrary.standard ⟨0⟩ 0 "tool" oneEntry ∧
      ¬twoEntries.toValue.Matches (SameNumber FloatLibrary.standard) oneEntry.toValue := by
  have htext : canonicalJson FloatLibrary.standard twoEntries =
      canonicalJson FloatLibrary.standard oneEntry := rfl
  refine ⟨htext, ?_, ?_⟩
  · unfold preimage
    rw [htext]
  · intro hmatch
    cases hmatch with
    | object hleft hright hkeys hvalues =>
      have hlength := congrArg List.length hkeys
      rw [List.length_map, List.length_map, ← hleft.length_eq, ← hright.length_eq] at hlength
      cases hlength

end UndoLog.Canonical.Rust
