import UndoLog.Text.Json
import UndoLog.Text.Literal

/-!
# Reading JSON texts

The grammar of RFC 8259, with the literals as a parameter. A value is read from the front of
a text; a text is accepted when only white space is left. Every step consumes a character, so
as many steps as there are characters are enough.
-/

namespace Text

/-- How keys, strings and numbers are read from the front of a text. -/
structure Reader (σ ρ : Type) where
  key : List Char → Option (σ × List Char)
  string : List Char → Option (σ × List Char)
  number : List Char → Option (ρ × List Char)

/-- White space between the tokens. -/
def isSpace (c : Char) : Bool := c == ' ' || c == '\t' || c == '\n' || c == '\r'

def skipSpace (text : List Char) : List Char := text.dropWhile isSpace

namespace Reader

variable {σ ν ρ : Type} {c : Char}

/-- The letters of a name that go on after the first one. -/
def word (letters : List Char) (v : Value σ ρ) (text : List Char) :
    Option (Value σ ρ × List Char) :=
  if letters.isPrefixOf text then some (v, text.drop letters.length) else none

mutual

/-- A value at the front of a text. -/
def value (R : Reader σ ρ) : ℕ → List Char → Option (Value σ ρ × List Char)
  | 0, _ => none
  | n + 1, text =>
    match skipSpace text with
    | [] => none
    | c :: rest =>
      if c = 'n' then word "ull".toList .null rest
      else if c = 't' then word "rue".toList (.bool true) rest
      else if c = 'f' then word "alse".toList (.bool false) rest
      else if c = '"' then (R.string (c :: rest)).map fun s => (.string s.1, s.2)
      else if c = '[' then
        if (skipSpace rest).head? = some ']' then some (.array [], (skipSpace rest).tail)
        else (R.items n rest).map fun xs => (.array xs.1, xs.2)
      else if c = '{' then
        if (skipSpace rest).head? = some '}' then some (.object [], (skipSpace rest).tail)
        else (R.fields n rest).map fun fs => (.object fs.1, fs.2)
      else (R.number (c :: rest)).map fun q => (.number q.1, q.2)

/-- The items of an array, at least one, up to the closing bracket. -/
def items (R : Reader σ ρ) : ℕ → List Char → Option (List (Value σ ρ) × List Char)
  | 0, _ => none
  | n + 1, text =>
    match R.value n text with
    | none => none
    | some (x, rest) =>
      match skipSpace rest with
      | [] => none
      | c :: rest =>
        if c = ',' then (R.items n rest).map fun xs => (x :: xs.1, xs.2)
        else if c = ']' then some ([x], rest)
        else none

/-- The entries of an object, at least one, up to the closing brace. -/
def fields (R : Reader σ ρ) : ℕ → List Char → Option (List (σ × Value σ ρ) × List Char)
  | 0, _ => none
  | n + 1, text =>
    match R.key (skipSpace text) with
    | none => none
    | some (k, rest) =>
      match skipSpace rest with
      | [] => none
      | c :: rest =>
        if c = ':' then
          match R.value n rest with
          | none => none
          | some (x, rest) =>
            match skipSpace rest with
            | [] => none
            | c :: rest =>
              if c = ',' then (R.fields n rest).map fun fs => ((k, x) :: fs.1, fs.2)
              else if c = '}' then some ([(k, x)], rest)
              else none
        else none

end

/-- The value of a whole text. -/
def parse (R : Reader σ ρ) (text : List Char) : Option (Value σ ρ) :=
  match R.value text.length text with
  | some (v, rest) => if skipSpace rest = [] then some v else none
  | none => none

/-! ## Reading what was written -/

/-- A text that starts with a character other than white space. -/
def Visible (text : List Char) : Prop := ∃ c rest, text = c :: rest ∧ isSpace c = false

theorem skipSpace_visible {text : List Char} (h : Visible text) (rest : List Char) :
    skipSpace (text ++ rest) = text ++ rest := by
  obtain ⟨c, text, rfl, hc⟩ := h
  rw [List.cons_append, skipSpace, List.dropWhile_cons_of_neg (by simp [hc])]

/-- A reader reads back what a style writes, on parts that are good. -/
structure Reads (R : Reader σ ρ) (S : Style σ ν) (q : ν → ρ) (goodKey goodString : σ → Prop)
    (goodNumber : ν → Prop) : Prop where
  key : ∀ k, goodKey k → ∀ rest, R.key (S.key k ++ ':' :: rest) = some (k, ':' :: rest)
  string : ∀ s, goodString s → ∀ rest, R.string (S.string s ++ rest) = some (s, rest)
  number : ∀ n, goodNumber n → ∀ rest, Delimited rest →
    R.number (S.number n ++ rest) = some (q n, rest)
  /-- Keys start with a quote. -/
  key_start : ∀ k, ∃ text, S.key k = '"' :: text
  /-- Strings start with a quote. -/
  string_start : ∀ s, ∃ text, S.string s = '"' :: text
  /-- Numbers start with a digit or a sign. -/
  number_start : ∀ n, ∃ c text, S.number n = c :: text ∧ (c.isDigit = true ∨ c = '-')

theorem delimited_cons (hc : c = ',' ∨ c = ']' ∨ c = '}') (rest : List Char) :
    Delimited (c :: rest) := by
  intro d hd
  rw [List.head?_cons, Option.mem_some_iff] at hd
  subst hd
  rcases hc with rfl | rfl | rfl <;> decide

/-- A digit or a sign starts nothing but a number. -/
theorem number_start_ne (hc : c.isDigit = true ∨ c = '-') :
    isSpace c = false ∧ c ≠ ']' ∧ c ≠ 'n' ∧ c ≠ 't' ∧ c ≠ 'f' ∧ c ≠ '"' ∧ c ≠ '[' ∧ c ≠ '{' := by
  rcases hc with hdigit | rfl
  · have hne := fun d hd => isDigit_ne (d := d) hdigit hd
    refine ⟨?_, hne _ rfl, hne _ rfl, hne _ rfl, hne _ rfl, hne _ rfl, hne _ rfl, hne _ rfl⟩
    simp [isSpace, hne ' ' rfl, hne '\t' rfl, hne '\n' rfl, hne '\r' rfl]
  · decide

variable {R : Reader σ ρ} {S : Style σ ν} {q : ν → ρ} {goodKey goodString : σ → Prop}
  {goodNumber : ν → Prop}

/-- The text of a value starts visibly, and not like the end of an array. -/
theorem Reads.print_start (h : R.Reads S q goodKey goodString goodNumber) (v : Value σ ν) :
    ∃ c text, S.unordered.print v = c :: text ∧ isSpace c = false ∧ c ≠ ']' := by
  cases v with
  | null | array | object => exact ⟨_, _, rfl, by decide, by decide⟩
  | bool b =>
    cases b with
    | true | false => exact ⟨_, _, rfl, by decide, by decide⟩
  | number n =>
    obtain ⟨c, text, htext, hc⟩ := h.number_start n
    have hne := number_start_ne hc
    exact ⟨c, text, htext, hne.1, hne.2.1⟩
  | string s =>
    obtain ⟨text, htext⟩ := h.string_start s
    exact ⟨_, text, htext, by decide, by decide⟩

/-- What reading a value back means, for as many steps as its text has characters. -/
def ReadsValue (R : Reader σ ρ) (S : Style σ ν) (q : ν → ρ) (v : Value σ ν) : Prop :=
  ∀ n, (S.unordered.print v).length ≤ n → ∀ rest, Delimited rest →
    R.value n (S.unordered.print v ++ rest) = some (v.map id q, rest)

theorem skipSpace_cons (hc : isSpace c = false) (rest : List Char) :
    skipSpace (c :: rest) = c :: rest := by
  rw [skipSpace, List.dropWhile_cons_of_neg (by simp [hc])]

theorem items_print {xs : List (Value σ ν)} (hne : xs ≠ []) (hxs : ∀ x ∈ xs, ReadsValue R S q x)
    {n : ℕ} (hn : (commas (xs.map S.unordered.print)).length < n) (rest : List Char) :
    R.items n (commas (xs.map S.unordered.print) ++ ']' :: rest) =
      some (xs.map (Value.map id q), rest) := by
  induction xs generalizing n with
  | nil => exact absurd rfl hne
  | cons x xs ih =>
    obtain ⟨m, rfl⟩ : ∃ m, n = m + 1 := ⟨n - 1, by omega⟩
    have hx := hxs x (by simp) m
    cases xs with
    | nil =>
      simp only [List.map_cons, List.map_nil, commas] at hn ⊢
      rw [items, hx (by omega) _ (delimited_cons (by simp) rest)]
      simp only [skipSpace_cons (c := ']') rfl rest, if_neg (show ']' ≠ ',' by decide), if_pos]
    | cons y ys =>
      simp only [List.map_cons, commas, List.append_assoc, List.cons_append, List.length_append,
        List.length_cons] at hn ⊢
      have hrest := ih (List.cons_ne_nil y ys) (fun z hz => hxs z (List.mem_cons_of_mem _ hz))
        (n := m) (by simp only [List.map_cons]; omega)
      simp only [List.map_cons] at hrest
      rw [items, hx (by omega) _ (delimited_cons (by simp) _)]
      simp only [skipSpace_cons (c := ',') rfl _, if_pos, hrest, Option.map_some]

/-- The text of an entry as it stands. -/
def entryText (S : Style σ ν) (f : σ × Value σ ν) : List Char :=
  S.key f.1 ++ ':' :: S.unordered.print f.2

theorem fields_print (h : R.Reads S q goodKey goodString goodNumber) {fs : List (σ × Value σ ν)}
    (hne : fs ≠ []) (hkeys : ∀ f ∈ fs, goodKey f.1) (hfs : ∀ f ∈ fs, ReadsValue R S q f.2)
    {n : ℕ} (hn : (commas (fs.map (entryText S))).length < n) (rest : List Char) :
    R.fields n (commas (fs.map (entryText S)) ++ '}' :: rest) =
      some (fs.map fun f => (f.1, f.2.map id q), rest) := by
  induction fs generalizing n with
  | nil => exact absurd rfl hne
  | cons f fs ih =>
    obtain ⟨m, rfl⟩ : ∃ m, n = m + 1 := ⟨n - 1, by omega⟩
    obtain ⟨text, hstart⟩ := h.key_start f.1
    have hvisible : Visible (S.key f.1) := ⟨'"', text, hstart, rfl⟩
    have hkey := h.key f.1 (hkeys f (by simp))
    have hf := hfs f (by simp) m
    cases fs with
    | nil =>
      simp only [List.map_cons, List.map_nil, commas, entryText, List.append_assoc,
        List.cons_append, List.length_append, List.length_cons] at hn ⊢
      rw [fields, skipSpace_visible hvisible, hkey]
      simp only [skipSpace_cons (c := ':') rfl _, if_pos]
      rw [hf (by omega) _ (delimited_cons (by simp) rest)]
      simp only [skipSpace_cons (c := '}') rfl rest, if_neg (show '}' ≠ ',' by decide), if_pos]
    | cons g gs =>
      simp only [List.map_cons, commas, List.append_assoc, List.cons_append, List.length_append,
        List.length_cons] at hn ⊢
      have hrest := ih (List.cons_ne_nil g gs) (fun z hz => hkeys z (List.mem_cons_of_mem _ hz))
        (fun z hz => hfs z (List.mem_cons_of_mem _ hz)) (n := m)
        (by simp only [List.map_cons]; omega)
      simp only [List.map_cons] at hrest
      simp only [entryText, List.append_assoc, List.cons_append, List.length_append,
        List.length_cons] at hn ⊢
      rw [fields, skipSpace_visible hvisible, hkey]
      simp only [skipSpace_cons (c := ':') rfl _, if_pos]
      rw [hf (by omega) _ (delimited_cons (by simp) _)]
      simp only [skipSpace_cons (c := ',') rfl _, if_pos]
      have hunfolded := hrest
      simp only [entryText] at hunfolded
      rw [hunfolded, Option.map_some]

theorem word_append (letters : List Char) (v : Value σ ρ) (rest : List Char) :
    word letters v (letters ++ rest) = some (v, rest) := by
  have hprefix : letters.isPrefixOf (letters ++ rest) = true := by simp
  rw [word, if_pos hprefix, List.drop_left]

variable (h : R.Reads S q goodKey goodString goodNumber) (v : Value σ ν)
  (hv : v.All (Value.AllKeys goodKey) goodString goodNumber)
include h hv

/-- A value reads back as itself, with the numbers it denotes. -/
theorem value_print : ReadsValue R S q v := by
  induction v using Value.induct with
  | null =>
    intro n hn rest _
    obtain ⟨m, rfl⟩ : ∃ m, n = m + 1 := ⟨n - 1, by simp [Style.print] at hn; omega⟩
    exact word_append "ull".toList .null rest
  | bool b =>
    intro n hn rest _
    obtain ⟨m, rfl⟩ : ∃ m, n = m + 1 :=
      ⟨n - 1, by cases b <;> simp [Style.print] at hn <;> omega⟩
    cases b with
    | true => exact word_append "rue".toList (.bool true) rest
    | false => exact word_append "alse".toList (.bool false) rest
  | number k =>
    intro n hn rest hrest
    obtain ⟨c, text, htext, hc⟩ := h.number_start k
    have hprint : S.unordered.print (.number k) = S.number k := rfl
    rw [hprint, htext, List.length_cons] at hn
    obtain ⟨m, rfl⟩ : ∃ m, n = m + 1 := ⟨n - 1, by omega⟩
    have hread := h.number k hv rest hrest
    obtain ⟨hspace, -, hn', ht, hf, hquote, hbracket, hbrace⟩ := number_start_ne hc
    rw [hprint, htext, List.cons_append] at *
    rw [value, skipSpace_cons hspace]
    simp only [if_neg hn', if_neg ht, if_neg hf, if_neg hquote, if_neg hbracket, if_neg hbrace,
      hread, Option.map_some]
    rfl
  | string s =>
    intro n hn rest _
    obtain ⟨text, htext⟩ := h.string_start s
    have hprint : S.unordered.print (.string s) = S.string s := rfl
    rw [hprint, htext, List.length_cons] at hn
    obtain ⟨m, rfl⟩ : ∃ m, n = m + 1 := ⟨n - 1, by omega⟩
    have hread := h.string s hv rest
    rw [hprint, htext, List.cons_append] at *
    change (R.string ('"' :: (text ++ rest))).map _ = _
    rw [hread]
    rfl
  | array xs ih =>
    simp only [Value.All, Value.allItems_iff] at hv
    intro n hn rest _
    have hprint : S.unordered.print (.array xs) =
        '[' :: (commas (xs.map S.unordered.print) ++ [']']) := by
      rw [Style.print, Style.printItems_eq]
    rw [hprint, List.length_cons, List.length_append, List.length_singleton] at hn
    obtain ⟨m, rfl⟩ : ∃ m, n = m + 1 := ⟨n - 1, by omega⟩
    rw [hprint, List.cons_append, List.append_assoc, List.singleton_append]
    change (if (skipSpace _).head? = some ']' then _ else (R.items m _).map _) = _
    cases xs with
    | nil => rfl
    | cons x xs =>
      have hread := items_print (List.cons_ne_nil x xs) (fun y hy => ih y hy (hv y hy))
        (n := m) (by omega) rest
      obtain ⟨c, text, htext, hspace, hc⟩ := h.print_start x
      obtain ⟨after, hafter⟩ : ∃ after, commas ((x :: xs).map S.unordered.print) = c :: after := by
        rw [List.map_cons, htext]
        cases xs <;> exact ⟨_, rfl⟩
      rw [hafter] at hread ⊢
      have hhead : (skipSpace (c :: after ++ ']' :: rest)).head? ≠ some ']' := by
        rw [List.cons_append, skipSpace_cons hspace, List.head?_cons]
        exact fun heq => hc (Option.some.inj heq)
      rw [if_neg hhead, hread, Option.map_some, Value.map, Value.mapItems_eq]
  | object fs ih =>
    simp only [Value.All, Value.allFields_iff] at hv
    intro n hn rest _
    have hprint : S.unordered.print (.object fs) =
        '{' :: (commas (fs.map (entryText S)) ++ ['}']) := by
      rw [Style.print, Style.printFields_eq, Style.arrange_unordered, List.map_map]
      rfl
    rw [hprint, List.length_cons, List.length_append, List.length_singleton] at hn
    obtain ⟨m, rfl⟩ : ∃ m, n = m + 1 := ⟨n - 1, by omega⟩
    rw [hprint, List.cons_append, List.append_assoc, List.singleton_append]
    change (if (skipSpace _).head? = some '}' then _ else (R.fields m _).map _) = _
    cases fs with
    | nil => rfl
    | cons f fs =>
      have hread := fields_print h (List.cons_ne_nil f fs)
        (fun g hg => hv.1 g.1 (List.mem_map_of_mem hg)) (fun g hg => ih g hg (hv.2 g hg))
        (n := m) (by omega) rest
      obtain ⟨text, htext⟩ := h.key_start f.1
      obtain ⟨after, hafter⟩ : ∃ after, commas ((f :: fs).map (entryText S)) = '"' :: after := by
        rw [List.map_cons, entryText, htext, List.cons_append]
        cases fs <;> exact ⟨_, rfl⟩
      rw [hafter] at hread ⊢
      have hhead : (skipSpace ('"' :: after ++ '}' :: rest)).head? ≠ some '}' := by
        rw [List.cons_append, skipSpace_cons rfl, List.head?_cons]
        decide
      rw [if_neg hhead, hread, Option.map_some, Value.map, Value.mapFields_eq]
      rfl

/-- A whole text reads back as the sorted value. -/
theorem parse_print : R.parse (S.print v) = some ((S.sorted v).map id q) := by
  have hkeys : ∀ ks ls : List σ, ks.Perm ls → Value.AllKeys goodKey ks →
      Value.AllKeys goodKey ls := fun _ _ hperm hks k hk => hks k (hperm.symm.subset hk)
  have hread := value_print h (S.sorted v) (S.all_sorted hkeys v hv)
    (S.unordered.print (S.sorted v)).length le_rfl [] fun c hc => by cases hc
  rw [List.append_nil] at hread
  rw [S.print_sorted, parse, hread]
  rfl

end Reader

end Text
