import UndoLog.Canonical.Signature
import UndoLog.Properties.RoundTrip

/-!
# Rust and Python sign the same bytes

Python escapes what is not ASCII and escapes keys like strings. Rust writes other characters
as they are and keys without escapes. Escapes are longer than what they stand for, so the texts
agree exactly where nothing is escaped by one side only.
-/

namespace UndoLog.Canonical

open Text

/-- A string that both sides escape alike. -/
def AsciiString (s : List Char) : Prop := ∀ c ∈ s, c.toNat < 0x80

/-- A character that Python writes as it is. -/
def PlainChar (c : Char) : Prop := 0x20 ≤ c.toNat ∧ c.toNat < 0x80 ∧ c ≠ '"' ∧ c ≠ '\\'

/-- A key without a character that Python escapes. -/
def PlainKey (k : List Char) : Prop := ∀ c ∈ k, PlainChar c

/-- The value of a `serde_json::Value` in Python. -/
def Python.ofValue (v : Json) : Value (List Char) Python.Number := v.toValue.map id Python.ofJson

/-! ## Characters -/

theorem shortEscapes_ascii : ∀ e ∈ shortEscapes, e.1 < 0x80 := by
  decide

theorem length_escapeChar (c : Char) : (Rust.escapeChar c).length ≤ (Python.escapeChar c).length ∧
      ((Rust.escapeChar c).length = (Python.escapeChar c).length → c.toNat < 0x80) := by
  unfold Rust.escapeChar Python.escapeChar
  rcases escapeCode_cases c.toNat with ⟨letter, hmem, heq⟩ | ⟨-, heq⟩
  · rw [heq, heq]
    exact ⟨le_rfl, fun _ => shortEscapes_ascii _ hmem⟩
  · rw [heq, heq]
    by_cases hcontrol : c.toNat < 0x20
    · rw [if_pos hcontrol, if_pos hcontrol]
      exact ⟨le_rfl, fun _ => by omega⟩
    · rw [if_neg hcontrol, if_neg hcontrol]
      by_cases hascii : c.toNat < 0x80
      · rw [if_pos hascii]
        exact ⟨le_rfl, fun _ => hascii⟩
      · rw [if_neg hascii]
        by_cases hunit : c.toNat ≤ 0xffff
        · rw [if_pos hunit]
          exact ⟨show 1 ≤ 6 by decide, fun h => by cases h⟩
        · rw [if_neg hunit]
          exact ⟨show 1 ≤ 12 by decide, fun h => by cases h⟩

variable {c : Char} {s : List Char} {v : Json}

theorem escapeChar_eq (hc : c.toNat < 0x80) : Rust.escapeChar c = Python.escapeChar c := by
  unfold Rust.escapeChar Python.escapeChar
  rcases escapeCode_cases c.toNat with ⟨letter, hmem, heq⟩ | ⟨-, heq⟩
  · rw [heq, heq]
  · rw [heq, heq, if_pos hc]

theorem length_pythonEscape (c : Char) : [c].length ≤ (Python.escapeChar c).length ∧
      ([c].length = (Python.escapeChar c).length → PlainChar c) := by
  unfold Python.escapeChar
  rcases escapeCode_cases c.toNat with ⟨letter, hmem, heq⟩ | ⟨hnot, heq⟩
  · rw [heq]
    exact ⟨show 1 ≤ 2 by decide, fun h => by cases h⟩
  · rw [heq]
    have hquote : c ≠ '"' := fun h =>
      hnot (0x22, '"') (by simp [shortEscapes]) (by rw [h]; rfl)
    have hescape : c ≠ '\\' := fun h =>
      hnot (0x5c, '\\') (by simp [shortEscapes]) (by rw [h]; rfl)
    by_cases hcontrol : c.toNat < 0x20
    · rw [if_pos hcontrol]
      exact ⟨show 1 ≤ 6 by decide, fun h => by cases h⟩
    · rw [if_neg hcontrol]
      by_cases hascii : c.toNat < 0x80
      · rw [if_pos hascii]
        exact ⟨le_rfl, fun _ => ⟨by omega, hascii, hquote, hescape⟩⟩
      · rw [if_neg hascii]
        by_cases hunit : c.toNat ≤ 0xffff
        · rw [if_pos hunit]
          exact ⟨show 1 ≤ 6 by decide, fun h => by cases h⟩
        · rw [if_neg hunit]
          exact ⟨show 1 ≤ 12 by decide, fun h => by cases h⟩

theorem shortEscapes_not_plain :
    ∀ e ∈ shortEscapes, e.1 < 0x20 ∨ e.1 = '"'.toNat ∨ e.1 = '\\'.toNat := by
  decide

theorem pythonEscape_plain (hc : PlainChar c) : Python.escapeChar c = [c] := by
  obtain ⟨hcontrol, hascii, hquote, hescape⟩ := hc
  unfold Python.escapeChar
  rcases escapeCode_cases c.toNat with ⟨letter, hmem, heq⟩ | ⟨-, heq⟩
  · rcases shortEscapes_not_plain _ hmem with h | h | h
    · change c.toNat < 0x20 at h
      omega
    · exact absurd (Char.toNat_inj.mp h) hquote
    · exact absurd (Char.toNat_inj.mp h) hescape
  · rw [heq, if_neg (by omega), if_pos hascii]

/-! ## Strings -/

theorem length_flatMap_le {f g : Char → List Char} {good : Char → Prop}
    (h : ∀ c, (f c).length ≤ (g c).length ∧ ((f c).length = (g c).length → good c)) :
    (s.flatMap f).length ≤ (s.flatMap g).length ∧
      ((s.flatMap f).length = (s.flatMap g).length → ∀ c ∈ s, good c) := by
  induction s with
  | nil => simp
  | cons c s ih =>
    obtain ⟨hle, heq⟩ := h c
    simp only [List.flatMap_cons, List.length_append, List.forall_mem_cons]
    exact ⟨by omega, fun hboth => ⟨heq (by omega), ih.2 (by omega)⟩⟩

theorem flatMap_congr {f g : Char → List Char} (h : ∀ c ∈ s, f c = g c) :
    s.flatMap f = s.flatMap g := by
  rw [List.flatMap_def, List.flatMap_def, List.map_congr_left h]

theorem length_quote (escape : Char → List Char) (s : List Char) :
    (quote escape s).length = (s.flatMap escape).length + 2 := by
  simp [quote]

theorem escapeJsonString_ascii (hs : AsciiString s) :
    Python.escapeJsonString s = quote Rust.escapeChar s := by
  unfold Python.escapeJsonString quote
  rw [flatMap_congr fun c hc => (escapeChar_eq (hs c hc)).symm]

theorem escapeJsonString_plain {k : List Char} (hk : PlainKey k) :
    Python.escapeJsonString k = '"' :: (k ++ ['"']) := by
  have hflat : k.flatMap Python.escapeChar = k := by
    rw [flatMap_congr fun c hc => pythonEscape_plain (hk c hc)]
    exact List.flatMap_singleton' k
  rw [Python.escapeJsonString, quote, hflat]

/-! ## Order of keys -/

theorem utf8_cons (hc : c.toNat < 0x80) (s : List Char) :
    utf8 (c :: s) = UInt8.ofNat c.toNat :: utf8 s := by
  have hbyte : String.utf8EncodeChar c = [UInt8.ofNat c.toNat] := by
    have hle : c.val.toNat ≤ 127 := by
      have heq : c.val.toNat = c.toNat := rfl
      omega
    rw [String.utf8EncodeChar, if_pos hle]
    rfl
  rw [utf8, List.flatMap_cons, hbyte]
  rfl

theorem ofNat_lt_iff {d : Char} (hc : c.toNat < 0x80) (hd : d.toNat < 0x80) :
    UInt8.ofNat c.toNat < UInt8.ofNat d.toNat ↔ c < d := by
  rw [UInt8.lt_iff_toNat_lt, Python.toNat_ofNat_ascii hc, Python.toNat_ofNat_ascii hd]
  exact Iff.rfl

theorem ofNat_eq_iff {d : Char} (hc : c.toNat < 0x80) (hd : d.toNat < 0x80) :
    UInt8.ofNat c.toNat = UInt8.ofNat d.toNat ↔ c = d := by
  rw [← UInt8.toNat_inj, Python.toNat_ofNat_ascii hc, Python.toNat_ofNat_ascii hd]
  exact Char.toNat_inj

theorem utf8_lt_iff {k l : List Char} (hk : AsciiString k) (hl : AsciiString l) :
    utf8 k < utf8 l ↔ k < l := by
  induction k generalizing l with
  | nil =>
    cases l with
    | nil => exact iff_of_false (List.not_lt_nil _) (List.not_lt_nil _)
    | cons d l =>
      rw [utf8_cons (hl d (by simp))]
      exact iff_of_true (List.nil_lt_cons _ _) (List.nil_lt_cons _ _)
  | cons c k ih =>
    cases l with
    | nil => exact iff_of_false (List.not_lt_nil _) (List.not_lt_nil _)
    | cons d l =>
      have hc := hk c (by simp)
      have hd := hl d (by simp)
      have hrest := ih (fun e he => hk e (List.mem_cons_of_mem _ he))
        fun e he => hl e (List.mem_cons_of_mem _ he)
      rw [utf8_cons hc, utf8_cons hd, List.cons_lt_cons_iff, List.cons_lt_cons_iff,
        ofNat_lt_iff hc hd, ofNat_eq_iff hc hd, hrest]

theorem PlainKey.ascii {k : List Char} (hk : PlainKey k) : AsciiString k :=
  fun c hc => (hk c hc).2.1

/-! ## Texts -/

/-- A value whose text is the same in both languages. -/
def Plain (v : Json) : Prop :=
  v.toValue.All (Value.AllKeys PlainKey) AsciiString fun _ => True

theorem print_eq_of_plain (L : FloatLibrary) (hv : Plain v) :
    (Python.style L).print (Python.ofValue v) = Rust.canonicalJson L v := by
  refine (Rust.style L).print_map (Python.style L) id Python.ofJson
    (fun k hk => escapeJsonString_plain hk) (fun s hs => escapeJsonString_ascii hs)
    (fun n _ => (Rust.number_eq L n).symm) ?_ v.toValue hv
  intro k l hk hl
  change (!decide (l < k)) = !decide (utf8 l < utf8 k)
  have hlt : utf8 l < utf8 k ↔ l < k := utf8_lt_iff (PlainKey.ascii hl) (PlainKey.ascii hk)
  rw [decide_eq_decide.mpr hlt]

theorem plain_of_print_eq {L : FloatLibrary}
    (h : (Python.style L).print (Python.ofValue v) = Rust.canonicalJson L v) : Plain v := by
  have hkey : ∀ k, ((Rust.style L).key k).length ≤ ((Python.style L).key k).length ∧
      (((Rust.style L).key k).length = ((Python.style L).key k).length → PlainKey k) := by
    intro k
    have hflat := length_flatMap_le (s := k) length_pythonEscape
    rw [List.flatMap_singleton'] at hflat
    change ('"' :: (k ++ ['"'])).length ≤ (quote Python.escapeChar k).length ∧
      (('"' :: (k ++ ['"'])).length = (quote Python.escapeChar k).length → PlainKey k)
    rw [length_quote, List.length_cons, List.length_append, List.length_singleton]
    exact ⟨by omega, fun heq => hflat.2 (by omega)⟩
  have hstring : ∀ s, ((Rust.style L).string s).length ≤ ((Python.style L).string s).length ∧
      (((Rust.style L).string s).length = ((Python.style L).string s).length → AsciiString s) := by
    intro s
    have hflat := length_flatMap_le (s := s) length_escapeChar
    change (quote Rust.escapeChar s).length ≤ (quote Python.escapeChar s).length ∧
      ((quote Rust.escapeChar s).length = (quote Python.escapeChar s).length → AsciiString s)
    rw [length_quote, length_quote]
    exact ⟨by omega, fun heq => hflat.2 (by omega)⟩
  have hlength := (Rust.style L).length_print_le (Python.style L) id Python.ofJson
    (fun k => (hkey k).1) (fun s => (hstring s).1)
    (fun n => (congrArg List.length (Rust.number_eq L n)).le) v.toValue
  have hall := hlength.2 (congrArg List.length h).symm
  exact hall.imp (fun ks hks k hk => (hkey k).2 (hks k hk)) (fun s => (hstring s).2)
    fun _ _ => trivial

theorem fits_ofJson (P : Python.Interpreter) (n : JsonNumber) : P.Fits (Python.ofJson n) := by
  have hdigits : ∀ m < 10 ^ 20, P.maxStrDigits = 0 ∨ (numeral m).length ≤ P.maxStrDigits := by
    intro m hm
    have hlength : (numeral m).length ≤ 20 :=
      (Nat.length_toDigits_le_iff (by decide) (by decide)).mpr hm
    rcases P.valid with hoff | hlimit
    · exact Or.inl hoff
    · exact Or.inr (by omega)
  cases n with
  | posInt n =>
    have hlt := n.toNat_lt
    exact hdigits n.toNat (by omega)
  | negInt n =>
    have hlt := n.isLt
    exact hdigits (n.toNat + 1) (by omega)
  | float x => trivial

theorem fits_ofValue (P : Python.Interpreter) (v : Json) : Python.Fits P (Python.ofValue v) :=
  Value.all_map (Value.all_of_forall (fun _ => trivial) (fun _ => trivial) (fits_ofJson P) _)

theorem length_utf8 (hs : AsciiString s) : (utf8 s).length = s.length := by
  induction s with
  | nil => rfl
  | cons c s ih =>
    rw [utf8_cons (hs c (by simp)), List.length_cons, List.length_cons,
      ih fun d hd => hs d (List.mem_cons_of_mem _ hd)]

theorem length_plain (L : FloatLibrary) (hv : Plain v) :
    (utf8 (Rust.canonicalJson L v)).length = (Rust.canonicalJson L v).length := by
  rw [← print_eq_of_plain L hv]
  exact length_utf8 (Python.ascii_print L _)

/-! ## Signatures -/

/-- Rust and Python write the same bytes for the arguments of a call and hash the same bytes
for the call. -/
structure SameBytes (P : Python.Interpreter) (L : FloatLibrary) (session : SessionId)
    (step : UInt32) (tool : String) (v : Json) : Prop where
  text : (Python.canonicalJson P L (Python.ofValue v)).map utf8 =
    .ok (utf8 (Rust.canonicalJson L v))
  hashed : Python.preimage P L session step tool (Python.ofValue v) =
    .ok (Rust.preimage L session step tool v)

/-- The bytes are the same exactly where strings are ASCII, keys need no escapes and the
lengths fit in 32 bits. -/
theorem sameBytes_iff (P : Python.Interpreter) (L : FloatLibrary) (session : SessionId)
    (step : UInt32) (tool : String) (v : Json) : SameBytes P L session step tool v ↔
      Plain v ∧ (utf8 tool.toList).length < 0x100000000 ∧
        (Rust.canonicalJson L v).length < 0x100000000 := by
  have hok := Python.canonicalJson_ok P L _ (fits_ofValue P v)
  have hiff := Python.preimage_eq_ok_iff hok session step tool (Rust.preimage L session step tool v)
  constructor
  · rintro ⟨htext, hhashed⟩
    rw [hok] at htext
    have hplain := plain_of_print_eq (utf8_injective (Except.ok.inj htext))
    obtain ⟨hname, hargs, -⟩ := hiff.mp hhashed
    rw [print_eq_of_plain L hplain, length_plain L hplain] at hargs
    exact ⟨hplain, hname, hargs⟩
  · rintro ⟨hplain, hname, hargs⟩
    have hprint := print_eq_of_plain L hplain
    rw [← length_plain L hplain] at hargs
    constructor
    · rw [hok, hprint]
      rfl
    · rw [hiff, hprint]
      exact ⟨hname, hargs, rfl⟩

/-- A string with a character that is not ASCII. -/
def accented : Json := .string "é"

/-- Python escapes what Rust writes as it is. -/
theorem accented_not_sameBytes :
    ¬SameBytes Python.Interpreter.initial FloatLibrary.standard ⟨0⟩ 0 "tool" accented := by
  rintro ⟨htext, -⟩
  have hrust : Rust.canonicalJson FloatLibrary.standard accented = ['"', 'é', '"'] := rfl
  have hpython : Python.canonicalJson Python.Interpreter.initial FloatLibrary.standard
      (Python.ofValue accented) = .ok ("\"\\u00e9\"".toList) := rfl
  rw [hrust, hpython] at htext
  have hlength := congrArg List.length (utf8_injective (Except.ok.inj htext))
  cases hlength

end UndoLog.Canonical
