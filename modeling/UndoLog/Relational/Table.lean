import Mathlib.Data.List.Nodup

/-!
# Tables as lists of rows

An `UPDATE … WHERE` replaces the rows that meet a condition and reports how many
they are. The lemmas say what such an update leaves alone. A key column is one
whose values are pairwise distinct over the table.
-/

namespace Relational

variable {Row Key : Type*}

/-- The effect of an update on one row. -/
def updateRow (p : Row → Bool) (f : Row → Row) (row : Row) : Row :=
  if p row then f row else row

/-- Replace the rows that meet the condition. -/
def updateWhere (p : Row → Bool) (f : Row → Row) (rows : List Row) : List Row :=
  rows.map (updateRow p f)

/-- A column whose values are pairwise distinct. -/
def Keyed (key : Row → Key) (rows : List Row) : Prop := (rows.map key).Nodup

variable {p : Row → Bool} {f : Row → Row} {key : Row → Key} {rows : List Row} {row : Row} {k : Key}

theorem updateRow_of_pos (h : p row = true) : updateRow p f row = f row := by
  simp [updateRow, h]

theorem updateRow_of_neg (h : p row = false) : updateRow p f row = row := by
  simp [updateRow, h]

/-- What holds of the rows that an update replaces and of those that it leaves. -/
theorem updateRow_cases {motive : Row → Prop} (row : Row) (hpos : p row = true → motive (f row))
    (hneg : p row = false → motive row) : motive (updateRow p f row) := by
  cases h : p row with
  | true =>
    rw [updateRow_of_pos h]
    exact hpos h
  | false =>
    rw [updateRow_of_neg h]
    exact hneg h

/-- A row of an updated table comes from one row of the table. -/
theorem mem_updateWhere : row ∈ updateWhere p f rows ↔ ∃ old ∈ rows, updateRow p f old = row := by
  simp [updateWhere]

/-- An update whose condition no row meets changes nothing. -/
theorem updateWhere_of_forall_not (h : ∀ row ∈ rows, p row = false) :
    updateWhere p f rows = rows := by
  have hsame : ∀ row ∈ rows, updateRow p f row = row :=
    fun row hrow => updateRow_of_neg (h row hrow)
  simpa [updateWhere] using List.map_congr_left hsame

/-- An update that reports at least one row met one. -/
theorem exists_of_countP_ne_zero (h : rows.countP p ≠ 0) : ∃ row ∈ rows, p row = true := by
  by_contra hnone
  push Not at hnone
  exact h (List.countP_eq_zero.mpr fun row hrow => by simpa using hnone row hrow)

/-- What an update keeps on every row it replaces, it keeps on every row. -/
theorem updateRow_column {column : Row → Key} (hf : ∀ row, column (f row) = column row)
    (row : Row) : column (updateRow p f row) = column row := by
  cases h : p row with
  | true => rw [updateRow_of_pos h, hf]
  | false => rw [updateRow_of_neg h]

/-- An update that keeps a column on the rows it replaces keeps the whole column. -/
theorem map_updateWhere {column : Row → Key} (hf : ∀ row, column (f row) = column row) :
    (updateWhere p f rows).map column = rows.map column := by
  simp [updateWhere, Function.comp_def, updateRow_column hf]

/-- An update that may be repeated, made under two conditions one after the other. -/
theorem updateWhere_updateWhere {q : Row → Bool} (hp : ∀ row, p (f row) = p row)
    (hf : ∀ row, f (f row) = f row) :
    updateWhere p f (updateWhere q f rows) = updateWhere (fun row => q row || p row) f rows := by
  have hrow : ∀ row, updateRow p f (updateRow q f row) =
      updateRow (fun row => q row || p row) f row := by
    intro row
    cases hq : q row <;> cases hpr : p row <;> simp [updateRow, hq, hpr, hp, hf]
  simp [updateWhere, Function.comp_def, hrow]

/-- A lookup whose condition an update keeps finds the updated row. -/
theorem find?_updateWhere {k : Row → Bool} (hk : ∀ row, k (f row) = k row) :
    (updateWhere p f rows).find? k = (rows.find? k).map (updateRow p f) := by
  rw [updateWhere, List.find?_map]
  congr 2
  funext row
  exact updateRow_column hk row

/-- Updates outside a key column keep it a key. -/
theorem Keyed.updateWhere (h : Keyed key rows) (hf : ∀ row, key (f row) = key row) :
    Keyed key (updateWhere p f rows) := by
  rwa [Keyed, map_updateWhere hf]

/-- Rows with the same key are the same row. -/
theorem Keyed.eq (h : Keyed key rows) {a b : Row} (ha : a ∈ rows) (hb : b ∈ rows)
    (hkey : key a = key b) : a = b :=
  List.inj_on_of_nodup_map h ha hb hkey

/-- Rows of a keyed table that all have one key are at most one row. -/
theorem Keyed.length_filter_le_one (h : Keyed key rows)
    (hsame : ∀ a ∈ rows, ∀ b ∈ rows, p a = true → p b = true → key a = key b) :
    (rows.filter p).length ≤ 1 := by
  have hkeys : ((rows.filter p).map key).Nodup := h.sublist (List.filter_sublist.map key)
  have hmem : ∀ a ∈ rows.filter p, a ∈ rows ∧ p a = true := fun a ha => List.mem_filter.mp ha
  cases hrows : rows.filter p with
  | nil => simp
  | cons a rest =>
    cases rest with
    | nil => simp
    | cons b rest =>
      -- a second row would repeat the key of the first
      rw [hrows] at hkeys hmem
      obtain ⟨ha, hpa⟩ := hmem a (by simp)
      obtain ⟨hb, hpb⟩ := hmem b (by simp)
      exact absurd (hsame a ha b hb hpa hpb) (by simp at hkeys; exact hkeys.1.1)

/-- A row with a new key may be added. -/
theorem Keyed.append (h : Keyed key rows) (hnew : ∀ old ∈ rows, key old ≠ key row) :
    Keyed key (rows ++ [row]) := by
  rw [Keyed, List.map_append, List.nodup_append]
  refine ⟨h, by simp, ?_⟩
  rintro k hk l hl rfl
  obtain ⟨old, hold, rfl⟩ := List.mem_map.mp hk
  exact hnew old hold (by simpa using hl)

/-- One row of a table is replaced, and the others stay as they are. -/
def Replaces (rows : List Row) (row row' : Row) (rows' : List Row) : Prop :=
  ∃ before after, rows = before ++ row :: after ∧ rows' = before ++ row' :: after

theorem Replaces.mem {row' : Row} {rows' : List Row} (h : Replaces rows row row' rows') :
    row ∈ rows := by
  obtain ⟨before, after, rfl, -⟩ := h
  exact List.mem_append_right _ List.mem_cons_self

/-- A row function that keeps a key and touches rows with one key only. -/
def Confined (key : Row → Key) (k : Key) (f : Row → Row) : Prop :=
  ∀ row, key (f row) = key row ∧ (key row ≠ k → f row = row)

theorem Confined.id : Confined key k (fun row => row) := fun _ => ⟨rfl, fun _ => rfl⟩

theorem Confined.comp {g : Row → Row} (hg : Confined key k g) (hf : Confined key k f) :
    Confined key k (g ∘ f) := by
  intro row
  obtain ⟨hkey, hkeep⟩ := hf row
  obtain ⟨hkey', hkeep'⟩ := hg (f row)
  refine ⟨hkey'.trans hkey, fun hne => ?_⟩
  rw [Function.comp_apply, hkeep' (hkey ▸ hne), hkeep hne]

/-- An update is confined when its condition asks for the key. -/
theorem Confined.updateRow (hf : ∀ row, key (f row) = key row)
    (hp : ∀ row, p row = true → key row = k) : Confined key k (updateRow p f) := by
  intro row
  refine ⟨updateRow_column hf row, fun hne => updateRow_of_neg ?_⟩
  exact Bool.eq_false_iff.mpr fun htrue => hne (hp row htrue)

/-- An update that is confined to the key of a row replaces that row. -/
theorem Keyed.replaces (h : Keyed key rows) (hrow : row ∈ rows)
    (hf : Confined key (key row) f) : Replaces rows row (f row) (rows.map f) := by
  obtain ⟨before, after, rfl⟩ := List.append_of_mem hrow
  rw [Keyed, List.map_append, List.map_cons, List.nodup_append, List.nodup_cons] at h
  obtain ⟨-, ⟨hafter, -⟩, hbefore⟩ := h
  have hkept : ∀ part : List Row, (∀ other ∈ part, key other ≠ key row) → part.map f = part := by
    intro part hpart
    have hsame : ∀ other ∈ part, f other = other := fun other hmem =>
      (hf other).2 (hpart other hmem)
    simpa using List.map_congr_left hsame
  refine ⟨before, after, rfl, ?_⟩
  rw [List.map_append, List.map_cons, hkept before, hkept after]
  · intro other hmem hkey
    rw [← hkey] at hafter
    exact hafter (List.mem_map_of_mem hmem)
  · intro other hmem
    exact hbefore _ (List.mem_map_of_mem hmem) _ List.mem_cons_self

/-- A lookup by the key finds the row. -/
theorem Keyed.find?_eq (h : Keyed key rows) (hrow : row ∈ rows) (hp : p row = true)
    (honly : ∀ other, p other = true → key other = key row) : rows.find? p = some row := by
  obtain ⟨found, hfound⟩ := List.find?_isSome.mpr ⟨row, hrow, hp⟩ |> Option.isSome_iff_exists.mp
  rw [hfound, h.eq (List.mem_of_find?_eq_some hfound) hrow (honly found (List.find?_some hfound))]

/-- No two rows have the same key. -/
theorem Keyed.countP_le_one [DecidableEq Key] (h : Keyed key rows) (k : Key) :
    rows.countP (fun row => key row = k) ≤ 1 := by
  have hcount := List.nodup_iff_count_le_one.mp h k
  rw [List.count, List.countP_map] at hcount
  exact hcount

/-! ## Views

A view shows the rows that meet a condition, or some columns of them. -/

section Views

variable {v : Row → Bool} {rows' : List Row} {column : Row → Key}

/-- A condition that only rows of the view meet is counted in the view. -/
theorem countP_view (h : ∀ row ∈ rows, p row = true → v row = true) :
    (rows.filter v).countP p = rows.countP p := by
  rw [List.countP_filter]
  refine List.countP_congr fun row hrow => ?_
  simpa using h row hrow

theorem any_view (h : ∀ row ∈ rows, p row = true → v row = true) :
    (rows.filter v).any p = rows.any p := by
  rw [List.any_filter, Bool.eq_iff_iff, List.any_eq_true, List.any_eq_true]
  constructor
  · rintro ⟨row, hrow, hboth⟩
    exact ⟨row, hrow, (Bool.and_eq_true_iff.mp hboth).2⟩
  · rintro ⟨row, hrow, hp⟩
    exact ⟨row, hrow, by simp [hp, h row hrow hp]⟩

theorem find?_view (h : ∀ row, p row = true → v row = true) :
    (rows.filter v).find? p = rows.find? p := by
  rw [List.find?_filter]
  congr 1
  funext row
  cases hp : p row with
  | true => simp [h row hp]
  | false => simp

theorem filter_view (h : ∀ row, p row = true → v row = true) :
    (rows.filter v).filter p = rows.filter p := by
  rw [List.filter_filter]
  congr 1
  funext row
  cases hp : p row with
  | true => simp [h row hp]
  | false => simp

/-- An update that keeps rows in the view acts on the view. -/
theorem view_updateWhere (hf : ∀ row, v (f row) = v row) :
    (updateWhere p f rows).filter v = updateWhere p f (rows.filter v) := by
  rw [updateWhere, updateWhere, List.filter_map]
  congr 2
  funext row
  exact updateRow_column hf row

/-- A change of other rows does not show in the view. -/
theorem view_map_hidden (hf : ∀ row, v (f row) = v row)
    (hkeep : ∀ row, v row = true → f row = row) :
    (rows.map f).filter v = rows.filter v := by
  have hview : v ∘ f = v := funext hf
  rw [List.filter_map, hview]
  have hsame : ∀ row ∈ rows.filter v, f row = row := fun row hrow =>
    hkeep row (List.mem_filter.mp hrow).2
  simpa using List.map_congr_left hsame

section Columns

variable (hp : ∀ a b, column a = column b → p a = p b)
  (h : rows.map column = rows'.map column)
include hp h

/-- Tables that agree in some columns agree in what depends on these only. -/
theorem countP_columns : rows.countP p = rows'.countP p := by
  obtain ⟨q, rfl⟩ := (Function.factorsThrough_iff p).mp fun a b => hp a b
  rw [← List.countP_map, h, List.countP_map]

theorem any_columns : rows.any p = rows'.any p := by
  obtain ⟨q, rfl⟩ := (Function.factorsThrough_iff p).mp fun a b => hp a b
  rw [← List.any_map, h, List.any_map]

theorem find?_columns : (rows.find? p).map column = (rows'.find? p).map column := by
  obtain ⟨q, rfl⟩ := (Function.factorsThrough_iff p).mp fun a b => hp a b
  rw [← List.find?_map, h, List.find?_map]

theorem filter_columns : (rows.filter p).map column = (rows'.filter p).map column := by
  obtain ⟨q, rfl⟩ := (Function.factorsThrough_iff p).mp fun a b => hp a b
  rw [← List.filter_map, h, List.filter_map]

theorem updateWhere_columns (hf : ∀ a b, column a = column b → column (f a) = column (f b)) :
    (updateWhere p f rows).map column = (updateWhere p f rows').map column := by
  have hrow : (column ∘ updateRow p f).FactorsThrough column := by
    intro a b hab
    simp only [Function.comp_apply, updateRow, hp a b hab]
    split
    · exact hf a b hab
    · exact hab
  have hmap : ∀ rows : List Row, (updateWhere p f rows).map column =
      (rows.map column).map (Function.extend column (column ∘ updateRow p f) id) := by
    simp [updateWhere, hrow.extend_apply]
  rw [hmap, h, hmap]

end Columns

end Views

end Relational
