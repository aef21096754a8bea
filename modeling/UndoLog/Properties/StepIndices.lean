import UndoLog.Canonical.Doubles
import UndoLog.Canonical.Signature
import UndoLog.Canonical.TypeScript

/-!
# What TypeScript hashes of a call

The fields of a call are written one after the other, with the step and the lengths in four
bytes each. `callSignature` accepts every step that is a natural number and hashes its
remainder.
-/

namespace UndoLog.Canonical

open Text

namespace TypeScript

/-- The conversion of a number to 32 bits with a sign. -/
def toInt32 (n : ℕ) : ℤ :=
  if n % 0x100000000 < 0x80000000 then n % 0x100000000 else n % 0x100000000 - 0x100000000

/-- `le32`. A shift to the right keeps the sign, and `& 0xff` is the remainder. -/
def le32 (n : ℕ) : List UInt8 :=
  [1, 256, 65536, 16777216].map fun place => UInt8.ofNat (toInt32 n / place % 256).toNat

/-- What `callSignature` hashes. `>>>` converts a number to 32 bits without a sign. -/
def preimage (L : FloatLibrary) (session : SessionId) (stepIndex : ℕ) (toolName : String)
    (args : Value (List UInt16) Number) : List UInt8 :=
  let nameBytes := utf8 toolName.toList
  let argsBytes := utf8 (canonicalJson L args)
  uuidBytes session.uuid ++ (le32 (stepIndex % 0x100000000) ++ (le32 nameBytes.length ++
    (nameBytes ++ (le32 argsBytes.length ++ argsBytes))))

theorem le32_inj {n m : ℕ} : le32 n = le32 m ↔ n % 0x100000000 = m % 0x100000000 := by
  have hbyte : ∀ a b : ℤ, UInt8.ofNat (a % 256).toNat = UInt8.ofNat (b % 256).toNat ↔
      a % 256 = b % 256 := by
    intro a b
    rw [← UInt8.toNat_inj, UInt8.toNat_ofNat', UInt8.toNat_ofNat']
    omega
  simp only [le32, List.map_cons, List.map_nil, List.cons.injEq, and_true, hbyte]
  unfold toInt32
  constructor
  · rintro ⟨h0, h1, h2, h3⟩
    split at h0 <;> split at h0 <;> omega
  · intro h
    rw [h]
    split <;> omega

end TypeScript

theorem mod_pow_eq {a b n : ℕ} (h : ∀ k < n, a / 256 ^ k % 256 = b / 256 ^ k % 256) :
    a % 256 ^ n = b % 256 ^ n := by
  induction n with
  | zero => simp [Nat.mod_one]
  | succ n ih =>
    rw [Nat.mod_pow_succ, Nat.mod_pow_succ, ih fun k hk => h k (Nat.lt_succ_of_lt hk),
      h n (Nat.lt_succ_self n)]

theorem uuidBytes_injective {u v : Uuid} (h : uuidBytes u = uuidBytes v) : u = v := by
  have hdigits : ∀ k < 16, u.toNat / 256 ^ k % 256 = v.toNat / 256 ^ k % 256 := by
    intro k hk
    have hbyte := List.map_inj_left.mp h (15 - k) (List.mem_range.mpr (by omega))
    rw [show 15 - (15 - k) = k by omega] at hbyte
    simpa using congrArg UInt8.toNat hbyte
  have hmod := mod_pow_eq hdigits
  have hlt : ∀ w : Uuid, w.toNat % 256 ^ 16 = w.toNat := fun w => Nat.mod_eq_of_lt w.isLt
  rw [hlt, hlt] at hmod
  exact BitVec.eq_of_toNat_eq hmod

namespace TypeScript

/-- The calls that are told apart: equal bytes come from equal fields. -/
def ToldApart (L : FloatLibrary) (step step' : ℕ) : Prop :=
  ∀ (session session' : SessionId) (tool tool' : String) (args args' : Value (List UInt16) Number),
    (utf8 tool.toList).length < 0x100000000 → (utf8 tool'.toList).length < 0x100000000 →
    (utf8 (canonicalJson L args)).length < 0x100000000 →
    (utf8 (canonicalJson L args')).length < 0x100000000 →
    preimage L session step tool args = preimage L session' step' tool' args' →
    session = session' ∧ step = step' ∧ tool = tool' ∧
      canonicalJson L args = canonicalJson L args'

theorem fields_of_preimage {L : FloatLibrary} {session session' : SessionId} {step step' : ℕ}
    {tool tool' : String} {args args' : Value (List UInt16) Number}
    (hname : (utf8 tool.toList).length < 0x100000000)
    (hname' : (utf8 tool'.toList).length < 0x100000000)
    (h : preimage L session step tool args = preimage L session' step' tool' args') :
    session = session' ∧ step % 0x100000000 = step' % 0x100000000 ∧ tool = tool' ∧
      canonicalJson L args = canonicalJson L args' := by
  have hfour : ∀ n m, (le32 n).length = (le32 m).length := by
    simp [le32]
  unfold preimage at h
  obtain ⟨hsession, h⟩ := List.append_inj h (by rw [length_uuidBytes, length_uuidBytes])
  obtain ⟨hstep, h⟩ := List.append_inj h (hfour _ _)
  obtain ⟨hlength, h⟩ := List.append_inj h (hfour _ _)
  have hlengths := le32_inj.mp hlength
  rw [Nat.mod_eq_of_lt hname, Nat.mod_eq_of_lt hname'] at hlengths
  obtain ⟨htool, h⟩ := List.append_inj h hlengths
  obtain ⟨-, hargs⟩ := List.append_inj h (hfour _ _)
  refine ⟨congrArg SessionId.mk (uuidBytes_injective hsession), ?_,
    String.toList_injective (utf8_injective htool), utf8_injective hargs⟩
  have hsteps := le32_inj.mp hstep
  rwa [Nat.mod_mod, Nat.mod_mod] at hsteps

/-- Calls with two steps are told apart exactly if the steps do not agree up to a multiple of
2³² without being equal. -/
theorem preimage_injective_iff (L : FloatLibrary) (step step' : ℕ) :
    ToldApart L step step' ↔ (step % 0x100000000 = step' % 0x100000000 → step = step') := by
  constructor
  · intro h hmod
    have heq : preimage L ⟨0⟩ step "" .null = preimage L ⟨0⟩ step' "" .null := by
      simp only [preimage, hmod]
    have hlength : (utf8 (canonicalJson L .null)).length < 0x100000000 := by
      rw [show utf8 (canonicalJson L .null) = [110, 117, 108, 108] from rfl]
      decide
    exact (h _ _ _ _ _ _ (by simp [utf8]) (by simp [utf8]) hlength hlength heq).2.1
  · intro h session session' tool tool' args args' hname hname' _ _ heq
    obtain ⟨hsession, hstep, htool, hargs⟩ := fields_of_preimage hname hname' heq
    exact ⟨hsession, h hstep, htool, hargs⟩

/-- The first step is hashed like step 2³². -/
theorem steps_collide : ∃ (session : SessionId) (tool : String)
    (args : Value (List UInt16) Number), preimage FloatLibrary.standard session 0 tool args =
      preimage FloatLibrary.standard session 0x100000000 tool args :=
  ⟨⟨0⟩, "", .null, rfl⟩

end TypeScript

end UndoLog.Canonical
