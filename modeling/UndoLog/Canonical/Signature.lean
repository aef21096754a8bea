import UndoLog.Canonical.Encoders

/-!
# Call signatures

What is hashed for a call: the session, the step and, each with its length in front, the tool
name and the canonical arguments.
-/

namespace UndoLog.Canonical

open Text

/-- The sixteen bytes of an identifier. -/
def uuidBytes (u : Uuid) : List UInt8 :=
  (List.range 16).map fun i => UInt8.ofNat (u.toNat / 256 ^ (15 - i))

/-- Four bytes, the least significant first. -/
def le32 (n : UInt32) : List UInt8 :=
  [UInt8.ofNat n.toNat, UInt8.ofNat (n.toNat / 256), UInt8.ofNat (n.toNat / 65536),
    UInt8.ofNat (n.toNat / 16777216)]

/-- The fields of a call one after the other. -/
def fieldBytes (session : SessionId) (step nameLength : UInt32) (name : List UInt8)
    (argsLength : UInt32) (args : List UInt8) : List UInt8 :=
  uuidBytes session.uuid ++ le32 step ++ le32 nameLength ++ name ++ le32 argsLength ++ args

namespace Rust

/-- What `CallSignature::compute` hashes. Lengths are cast with `as u32`. -/
def preimage (L : FloatLibrary) (session : SessionId) (step : UInt32) (tool : String)
    (args : Json) : List UInt8 :=
  let name := utf8 tool.toList
  let canon := utf8 (canonicalJson L args)
  fieldBytes session step (UInt32.ofNat name.length) name (UInt32.ofNat canon.length) canon

end Rust

namespace Python

/-- `struct.pack("<I", n)`. -/
def pack (n : ℕ) : Except Exception UInt32 :=
  if n < 0x100000000 then .ok (UInt32.ofNat n) else .error .packRange

/-- What `call_signature` hashes for a session of sixteen bytes. -/
def preimage (P : Interpreter) (L : FloatLibrary) (session : SessionId) (step : UInt32)
    (tool : String) (args : Value (List Char) Number) : Except Exception (List UInt8) := do
  let canon ← canonicalJson P L args
  let name := utf8 tool.toList
  let nameLength ← pack name.length
  let argsLength ← pack (utf8 canon).length
  pure (fieldBytes session step nameLength name argsLength (utf8 canon))

theorem pack_ok {n : ℕ} (h : n < 0x100000000) : pack n = .ok (UInt32.ofNat n) := if_pos h

theorem pack_error {n : ℕ} (h : ¬n < 0x100000000) : pack n = .error .packRange := if_neg h

theorem preimage_eq_ok_iff {P : Interpreter} {L : FloatLibrary} {args : Value (List Char) Number}
    {canon : List Char} (hcanon : canonicalJson P L args = .ok canon) (session : SessionId)
    (step : UInt32) (tool : String) (bytes : List UInt8) :
    preimage P L session step tool args = .ok bytes ↔
      (utf8 tool.toList).length < 0x100000000 ∧ (utf8 canon).length < 0x100000000 ∧
        bytes = fieldBytes session step (UInt32.ofNat (utf8 tool.toList).length)
          (utf8 tool.toList) (UInt32.ofNat (utf8 canon).length) (utf8 canon) := by
  unfold preimage
  rw [hcanon]
  change (pack (utf8 tool.toList).length >>= fun nameLength =>
    pack (utf8 canon).length >>= fun argsLength =>
      pure (fieldBytes session step nameLength (utf8 tool.toList) argsLength (utf8 canon))) =
    .ok bytes ↔ _
  by_cases hname : (utf8 tool.toList).length < 0x100000000
  · by_cases hargs : (utf8 canon).length < 0x100000000
    · rw [pack_ok hname, pack_ok hargs]
      exact ⟨fun h => ⟨hname, hargs, (Except.ok.inj h).symm⟩, fun h => congrArg _ h.2.2.symm⟩
    · rw [pack_ok hname, pack_error hargs]
      exact ⟨by rintro ⟨⟩, fun h => absurd h.2.1 hargs⟩
  · rw [pack_error hname]
    exact ⟨by rintro ⟨⟩, fun h => absurd h.1 hname⟩

end Python

/-! ## Lengths -/

theorem length_uuidBytes (u : Uuid) : (uuidBytes u).length = 16 := by
  simp [uuidBytes]

/-! ## UTF-8 -/

/-- Bytes tell a string. -/
theorem utf8_injective {s t : List Char} (h : utf8 s = utf8 t) : s = t := by
  have hbytes : (String.ofList s).toByteArray = (String.ofList t).toByteArray := by
    rw [String.toByteArray_ofList, String.toByteArray_ofList]
    exact congrArg List.toByteArray h
  exact String.ofList_injective (String.toByteArray_inj.mp hbytes)

end UndoLog.Canonical
