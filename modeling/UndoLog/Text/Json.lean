import Mathlib.Data.List.Sort

/-!
# JSON values and compact texts

Values are generic in their strings and numbers, since the same value has other strings and
other numbers in another language. A style says how a language writes keys, strings and
numbers and in which order it writes the entries of an object.
-/

namespace Text

/-- A recursion that treats the items of a list one by one maps them. -/
theorem eq_map {α β : Type} {go : List α → List β} {f : α → β} (hnil : go [] = [])
    (hcons : ∀ x xs, go (x :: xs) = f x :: go xs) (xs : List α) : go xs = xs.map f := by
  induction xs with
  | nil => exact hnil
  | cons x xs ih => rw [hcons, ih, List.map_cons]

/-- A JSON value. The entries of an object stand in the order of the container. -/
inductive Value (σ ν : Type) where
  | null
  | bool (b : Bool)
  | number (n : ν)
  | string (s : σ)
  | array (items : List (Value σ ν))
  | object (fields : List (σ × Value σ ν))

namespace Value

variable {σ τ ν μ ρ : Type}

/-- Induction with the parts of a value as members of its lists. -/
@[elab_as_elim]
theorem induct {P : Value σ ν → Prop} (null : P .null) (bool : ∀ b, P (.bool b))
    (number : ∀ n, P (.number n)) (string : ∀ s, P (.string s))
    (array : ∀ items, (∀ x ∈ items, P x) → P (.array items))
    (object : ∀ fields, (∀ f ∈ fields, P f.2) → P (.object fields)) (v : Value σ ν) : P v :=
  @Value.rec σ ν P (fun items => ∀ x ∈ items, P x) (fun fields => ∀ f ∈ fields, P f.2)
    (fun f => P f.2) null bool number string array object
    (fun _ h => absurd h List.not_mem_nil)
    (fun _ _ hx hxs _ h => (List.mem_cons.mp h).elim (fun heq => heq ▸ hx) (hxs _))
    (fun _ h => absurd h List.not_mem_nil)
    (fun _ _ hf hfs _ h => (List.mem_cons.mp h).elim (fun heq => heq ▸ hf) (hfs _))
    (fun _ _ h => h) v

/-! ## Values in other types -/

mutual

/-- The same value with other strings and numbers. -/
def map (f : σ → τ) (g : ν → μ) : Value σ ν → Value τ μ
  | .null => .null
  | .bool b => .bool b
  | .number n => .number (g n)
  | .string s => .string (f s)
  | .array items => .array (mapItems f g items)
  | .object fields => .object (mapFields f g fields)

def mapItems (f : σ → τ) (g : ν → μ) : List (Value σ ν) → List (Value τ μ)
  | [] => []
  | x :: xs => x.map f g :: mapItems f g xs

def mapFields (f : σ → τ) (g : ν → μ) : List (σ × Value σ ν) → List (τ × Value τ μ)
  | [] => []
  | (k, x) :: fs => (f k, x.map f g) :: mapFields f g fs

end

@[simp] theorem mapItems_eq (f : σ → τ) (g : ν → μ) (items : List (Value σ ν)) :
    mapItems f g items = items.map (map f g) :=
  eq_map rfl (fun _ _ => rfl) items

@[simp] theorem mapFields_eq (f : σ → τ) (g : ν → μ) (fields : List (σ × Value σ ν)) :
    mapFields f g fields = fields.map fun x => (f x.1, x.2.map f g) :=
  eq_map rfl (fun _ _ => rfl) fields

/-! ## Properties of all parts -/

mutual

/-- The keys of every object, every string and every number have a property. -/
def All (keys : List σ → Prop) (string : σ → Prop) (number : ν → Prop) : Value σ ν → Prop
  | .null => True
  | .bool _ => True
  | .number n => number n
  | .string s => string s
  | .array items => AllItems keys string number items
  | .object fields => keys (fields.map Prod.fst) ∧ AllFields keys string number fields

def AllItems (keys : List σ → Prop) (string : σ → Prop) (number : ν → Prop) :
    List (Value σ ν) → Prop
  | [] => True
  | x :: xs => x.All keys string number ∧ AllItems keys string number xs

def AllFields (keys : List σ → Prop) (string : σ → Prop) (number : ν → Prop) :
    List (σ × Value σ ν) → Prop
  | [] => True
  | (_, x) :: fs => x.All keys string number ∧ AllFields keys string number fs

end

variable {keys : List σ → Prop} {string : σ → Prop} {number : ν → Prop}

@[simp] theorem allItems_iff {items : List (Value σ ν)} :
    AllItems keys string number items ↔ ∀ x ∈ items, x.All keys string number := by
  induction items with
  | nil => simp [AllItems]
  | cons x xs ih => simp [AllItems, ih]

@[simp] theorem allFields_iff {fields : List (σ × Value σ ν)} :
    AllFields keys string number fields ↔ ∀ f ∈ fields, f.2.All keys string number := by
  induction fields with
  | nil => simp [AllFields]
  | cons f fs ih => simp only [AllFields, ih, List.forall_mem_cons]

section

variable [DecidablePred keys] [DecidablePred string] [DecidablePred number]

mutual

/-- A property of all parts is decided part by part. -/
def decideAll : (v : Value σ ν) → Decidable (v.All keys string number)
  | .null => isTrue trivial
  | .bool _ => isTrue trivial
  | .number n => inferInstanceAs (Decidable (number n))
  | .string s => inferInstanceAs (Decidable (string s))
  | .array items => decideItems items
  | .object fields =>
    match (inferInstance : Decidable (keys (fields.map Prod.fst))), decideFields fields with
    | isTrue hkeys, isTrue hfields => isTrue ⟨hkeys, hfields⟩
    | isFalse hkeys, _ => isFalse fun h => hkeys h.1
    | _, isFalse hfields => isFalse fun h => hfields h.2

def decideItems : (items : List (Value σ ν)) → Decidable (AllItems keys string number items)
  | [] => isTrue trivial
  | x :: xs =>
    match decideAll x, decideItems xs with
    | isTrue hx, isTrue hxs => isTrue ⟨hx, hxs⟩
    | isFalse hx, _ => isFalse fun h => hx h.1
    | _, isFalse hxs => isFalse fun h => hxs h.2

def decideFields : (fields : List (σ × Value σ ν)) → Decidable (AllFields keys string number fields)
  | [] => isTrue trivial
  | (_, x) :: fs =>
    match decideAll x, decideFields fs with
    | isTrue hx, isTrue hfs => isTrue ⟨hx, hfs⟩
    | isFalse hx, _ => isFalse fun h => hx h.1
    | _, isFalse hfs => isFalse fun h => hfs h.2

end

instance (v : Value σ ν) : Decidable (v.All keys string number) := decideAll v

end

/-- The keys of every object have a property, each on its own. -/
abbrev AllKeys (key : σ → Prop) : List σ → Prop := fun keys => ∀ k ∈ keys, key k

/-- What holds of everything holds of all parts. -/
theorem all_of_forall (hkeys : ∀ ks, keys ks) (hstring : ∀ s, string s)
    (hnumber : ∀ n, number n) (v : Value σ ν) : v.All keys string number := by
  induction v using Value.induct with
  | null | bool => trivial
  | number n => exact hnumber n
  | string s => exact hstring s
  | array items ih => simpa only [All, allItems_iff] using ih
  | object fields ih =>
    simp only [All, allFields_iff]
    exact ⟨hkeys _, ih⟩

theorem All.imp {keys' : List σ → Prop} {string' : σ → Prop}
    {number' : ν → Prop} (hkeys : ∀ ks, keys ks → keys' ks)
    (hstring : ∀ s, string s → string' s) (hnumber : ∀ n, number n → number' n) {v : Value σ ν}
    (hv : v.All keys string number) : v.All keys' string' number' := by
  induction v using Value.induct with
  | null | bool => trivial
  | number n => exact hnumber n hv
  | string s => exact hstring s hv
  | array items ih =>
    simp only [All, allItems_iff] at hv ⊢
    exact fun x hx => ih x hx (hv x hx)
  | object fields ih =>
    simp only [All, allFields_iff] at hv ⊢
    exact ⟨hkeys _ hv.1, fun f hf => ih f hf (hv.2 f hf)⟩

/-- What holds of the images of all parts holds of all parts of the image. -/
theorem all_map {f : σ → τ} {g : ν → μ} {keys : List τ → Prop} {string : τ → Prop}
    {number : μ → Prop} {v : Value σ ν}
    (hv : v.All (fun ks => keys (ks.map f)) (fun s => string (f s)) fun n => number (g n)) :
    (v.map f g).All keys string number := by
  induction v using Value.induct with
  | null | bool => trivial
  | number | string => exact hv
  | array items ih =>
    simp only [All, allItems_iff] at hv
    simp only [map, mapItems_eq, All, allItems_iff, List.forall_mem_map]
    exact fun x hx => ih x hx (hv x hx)
  | object fields ih =>
    simp only [All, allFields_iff] at hv
    simp only [map, mapFields_eq, All, allFields_iff, List.forall_mem_map]
    refine ⟨?_, fun x hx => ih x hx (hv.2 x hx)⟩
    have hkeys := hv.1
    rw [List.map_map] at hkeys ⊢
    exact hkeys

/-- No object has two entries of one key. -/
def Distinct (v : Value σ ν) : Prop := v.All List.Nodup (fun _ => True) fun _ => True

instance [DecidableEq σ] (v : Value σ ν) : Decidable v.Distinct :=
  inferInstanceAs (Decidable (v.All List.Nodup (fun _ => True) fun _ => True))

/-! ## Equality up to the order of entries -/

/-- Equality up to the order of the entries of objects, with numbers compared by `R`. -/
inductive Matches (R : ν → μ → Prop) : Value σ ν → Value σ μ → Prop where
  | null : Matches R .null .null
  | bool (b : Bool) : Matches R (.bool b) (.bool b)
  | number {m : ν} {n : μ} (h : R m n) : Matches R (.number m) (.number n)
  | string (s : σ) : Matches R (.string s) (.string s)
  | array {xs : List (Value σ ν)} {ys : List (Value σ μ)} (h : List.Forall₂ (Matches R) xs ys) :
    Matches R (.array xs) (.array ys)
  | object {fs fs' : List (σ × Value σ ν)} {gs gs' : List (σ × Value σ μ)} (left : fs.Perm fs')
    (right : gs.Perm gs') (keys : fs'.map Prod.fst = gs'.map Prod.fst)
    (values : List.Forall₂ (Matches R) (fs'.map Prod.snd) (gs'.map Prod.snd)) :
    Matches R (.object fs) (.object gs)

end Value

/-! ## Writing -/

/-- How a language writes JSON: its keys, strings and numbers, and the order of entries. -/
structure Style (σ ν : Type) where
  key : σ → List Char
  string : σ → List Char
  number : ν → List Char
  le : σ → σ → Bool

/-- Texts with commas between them. -/
def commas : List (List Char) → List Char
  | [] => []
  | [text] => text
  | text :: rest => text ++ ',' :: commas rest

namespace Style

variable {σ τ ν μ α β : Type} (S : Style σ ν)

/-- One entry of an object. -/
def field (f : σ × List Char) : List Char := S.key f.1 ++ ':' :: f.2

/-- The entries of an object, sorted by their keys. -/
def arrange (fields : List (σ × α)) : List (σ × α) :=
  fields.insertionSort fun f g => S.le f.1 g.1

theorem arrange_perm (fields : List (σ × α)) : (S.arrange fields).Perm fields :=
  List.perm_insertionSort _ _

/-- Entries are sorted the same way whatever their values are. -/
theorem arrange_map (T : Style τ μ) (f : σ → τ) (g : α → β) (fields : List (σ × α))
    (hle : ∀ k ∈ fields.map Prod.fst, ∀ l ∈ fields.map Prod.fst, T.le (f k) (f l) = S.le k l) :
    T.arrange (fields.map fun x => (f x.1, g x.2)) =
      (S.arrange fields).map fun x => (f x.1, g x.2) := by
  symm
  apply List.map_insertionSort
  intro x hx y hy
  rw [hle x.1 (List.mem_map_of_mem hx) y.1 (List.mem_map_of_mem hy)]

mutual

/-- The text of a value with the entries of every object sorted. -/
def print : Value σ ν → List Char
  | .null => "null".toList
  | .bool b => if b then "true".toList else "false".toList
  | .number n => S.number n
  | .string s => S.string s
  | .array items => '[' :: (commas (printItems items) ++ [']'])
  | .object fields => '{' :: (commas ((S.arrange (printFields fields)).map S.field) ++ ['}'])

def printItems : List (Value σ ν) → List (List Char)
  | [] => []
  | x :: xs => print x :: printItems xs

def printFields : List (σ × Value σ ν) → List (σ × List Char)
  | [] => []
  | (k, x) :: fs => (k, print x) :: printFields fs

end

@[simp] theorem printItems_eq (items : List (Value σ ν)) : S.printItems items = items.map S.print :=
  eq_map rfl (fun _ _ => rfl) items

@[simp] theorem printFields_eq (fields : List (σ × Value σ ν)) :
    S.printFields fields = fields.map fun f => (f.1, S.print f.2) :=
  eq_map rfl (fun _ _ => rfl) fields

/-- Values that are written alike part by part are written alike. -/
theorem print_map (T : Style τ μ) (f : σ → τ) (g : ν → μ) {key string : σ → Prop}
    {number : ν → Prop} (hkey : ∀ k, key k → T.key (f k) = S.key k)
    (hstring : ∀ s, string s → T.string (f s) = S.string s)
    (hnumber : ∀ n, number n → T.number (g n) = S.number n)
    (hle : ∀ k l, key k → key l → T.le (f k) (f l) = S.le k l) (v : Value σ ν)
    (hv : v.All (Value.AllKeys key) string number) : T.print (v.map f g) = S.print v := by
  induction v using Value.induct with
  | null | bool => rfl
  | number n => exact hnumber n hv
  | string s => exact hstring s hv
  | array items ih =>
    simp only [Value.All, Value.allItems_iff] at hv
    have hitems : (items.map (Value.map f g)).map T.print = items.map S.print := by
      rw [List.map_map]
      exact List.map_congr_left fun x hx => ih x hx (hv x hx)
    simp only [Value.map, Value.mapItems_eq, print, printItems_eq, hitems]
  | object fields ih =>
    simp only [Value.All, Value.allFields_iff] at hv
    obtain ⟨hkeys, hfields⟩ := hv
    have hprinted : (fields.map fun x => (f x.1, x.2.map f g)).map (fun x => (x.1, T.print x.2)) =
        (fields.map fun x => (x.1, S.print x.2)).map fun x => (f x.1, x.2) := by
      rw [List.map_map, List.map_map]
      exact List.map_congr_left fun x hx => Prod.ext rfl (ih x hx (hfields x hx))
    have hsame : (fields.map fun x => (x.1, S.print x.2)).map Prod.fst = fields.map Prod.fst := by
      rw [List.map_map]
      rfl
    have harrange := arrange_map S T f (id : List Char → List Char)
      (fields.map fun x => (x.1, S.print x.2))
      fun k hk l hl => hle k l (hkeys k (hsame ▸ hk)) (hkeys l (hsame ▸ hl))
    have hentries : (S.arrange (fields.map fun x => (x.1, S.print x.2))).map
        (T.field ∘ fun x => (f x.1, id x.2)) =
          (S.arrange (fields.map fun x => (x.1, S.print x.2))).map S.field := by
      apply List.map_congr_left
      intro x hx
      have hmem : x.1 ∈ fields.map Prod.fst := by
        rw [← hsame]
        exact List.mem_map_of_mem ((S.arrange_perm _).subset hx)
      simp only [Function.comp_apply, field, id, hkey x.1 (hkeys x.1 hmem)]
    simp only [Value.map, Value.mapFields_eq, print, printFields_eq, hprinted]
    simp only [id] at harrange hentries
    rw [harrange, List.map_map, hentries]

/-! ## Sorting first -/

/-- The same style without an order, which writes entries as they stand. -/
def unordered : Style σ ν := { S with le := fun _ _ => true }

@[simp] theorem arrange_unordered (fields : List (σ × α)) :
    S.unordered.arrange fields = fields := by
  apply List.Pairwise.insertionSort_eq
  exact List.pairwise_iff_forall_sublist.mpr fun _ => rfl

mutual

/-- A value with the entries of every object sorted. -/
def sorted : Value σ ν → Value σ ν
  | .null => .null
  | .bool b => .bool b
  | .number n => .number n
  | .string s => .string s
  | .array items => .array (sortedItems items)
  | .object fields => .object (S.arrange (sortedFields fields))

def sortedItems : List (Value σ ν) → List (Value σ ν)
  | [] => []
  | x :: xs => sorted x :: sortedItems xs

def sortedFields : List (σ × Value σ ν) → List (σ × Value σ ν)
  | [] => []
  | (k, x) :: fs => (k, sorted x) :: sortedFields fs

end

@[simp] theorem sortedItems_eq (items : List (Value σ ν)) :
    S.sortedItems items = items.map S.sorted :=
  eq_map rfl (fun _ _ => rfl) items

@[simp] theorem sortedFields_eq (fields : List (σ × Value σ ν)) :
    S.sortedFields fields = fields.map fun f => (f.1, S.sorted f.2) :=
  eq_map rfl (fun _ _ => rfl) fields

/-- Sorting commutes with what does not touch the keys. -/
theorem arrange_map_snd (g : α → β) (fields : List (σ × α)) :
    S.arrange (fields.map fun f => (f.1, g f.2)) = (S.arrange fields).map fun f => (f.1, g f.2) :=
  arrange_map S S id g fields fun _ _ _ _ => rfl

/-- Writing sorts the entries and then writes them as they stand. -/
theorem print_sorted (v : Value σ ν) : S.print v = S.unordered.print (S.sorted v) := by
  induction v using Value.induct with
  | null | bool | number | string => rfl
  | array items ih =>
    have hitems : (items.map S.sorted).map S.unordered.print = items.map S.print := by
      rw [List.map_map]
      exact List.map_congr_left fun x hx => (ih x hx).symm
    simp only [sorted, sortedItems_eq, print, printItems_eq, hitems]
  | object fields ih =>
    have hentries : (fields.map fun f => (f.1, S.print f.2)) =
        (fields.map fun f => (f.1, S.sorted f.2)).map fun f => (f.1, S.unordered.print f.2) := by
      rw [List.map_map]
      exact List.map_congr_left fun f hf => Prod.ext rfl (ih f hf)
    simp only [sorted, sortedFields_eq, print, printFields_eq, arrange_unordered, hentries]
    rw [arrange_map_snd]
    rfl

/-- What holds of all parts holds of all parts of the sorted value. -/
theorem all_sorted {keys : List σ → Prop} {string : σ → Prop} {number : ν → Prop}
    (hkeys : ∀ ks ls, ks.Perm ls → keys ks → keys ls) (v : Value σ ν)
    (hv : v.All keys string number) : (S.sorted v).All keys string number := by
  induction v using Value.induct with
  | null | bool => trivial
  | number | string => exact hv
  | array items ih =>
    simp only [Value.All, Value.allItems_iff, sorted, sortedItems_eq, List.forall_mem_map] at hv ⊢
    exact fun x hx => ih x hx (hv x hx)
  | object fields ih =>
    simp only [Value.All, Value.allFields_iff, sorted, sortedFields_eq] at hv ⊢
    have hperm := S.arrange_perm (fields.map fun f => (f.1, S.sorted f.2))
    constructor
    · refine hkeys _ _ ?_ hv.1
      have hfst := (hperm.map Prod.fst).symm
      rwa [List.map_map] at hfst
    · intro f hf
      obtain ⟨g, hg, rfl⟩ := List.mem_map.mp (hperm.subset hf)
      exact ih g hg (hv.2 g hg)

end Style

namespace Value

variable {σ τ ν μ ρ : Type}

/-- Lists have the same image when they agree in it item by item. -/
theorem map_eq_map_iff {α β γ : Type} {f : α → γ} {g : β → γ} {xs : List α} {ys : List β} :
    xs.map f = ys.map g ↔ List.Forall₂ (fun x y => f x = g y) xs ys := by
  rw [← List.forall₂_eq_eq_eq, List.forall₂_map_left_iff, List.forall₂_map_right_iff]

/-- What holds item by item is used at the members. -/
theorem forall₂_imp_mem {α β : Type} {R R' : α → β → Prop} {xs : List α} {ys : List β}
    (h : List.Forall₂ R xs ys) (hstep : ∀ x ∈ xs, ∀ y, R x y → R' x y) : List.Forall₂ R' xs ys :=
  ((List.forall₂_and_left _ _).mpr ⟨fun _ hx => hx, h⟩).imp fun x y hxy => hstep x hxy.1 y hxy.2

/-- Values that are equal when sorted and read are equal up to the order of entries and the
reading of numbers. -/
theorem matches_of_sorted_eq (S : Style σ ν) (T : Style σ μ) {q : ν → ρ} {r : μ → ρ}
    {R : ν → μ → Prop} (hread : ∀ m n, q m = r n → R m n) (v : Value σ ν) (w : Value σ μ)
    (h : (S.sorted v).map id q = (T.sorted w).map id r) : Matches R v w := by
  induction v using Value.induct generalizing w with
  | null =>
    cases w with
    | null => exact .null
    | _ => simp [Style.sorted, map] at h
  | bool b =>
    cases w with
    | bool c =>
      simp only [Style.sorted, map, bool.injEq] at h
      exact h ▸ .bool b
    | _ => simp [Style.sorted, map] at h
  | number n =>
    cases w with
    | number m =>
      simp only [Style.sorted, map, number.injEq] at h
      exact .number (hread n m h)
    | _ => simp [Style.sorted, map] at h
  | string s =>
    cases w with
    | string t =>
      simp only [Style.sorted, map, string.injEq, id] at h
      exact h ▸ .string s
    | _ => simp [Style.sorted, map] at h
  | array xs ih =>
    cases w with
    | array ys =>
      simp only [Style.sorted, map, Style.sortedItems_eq, mapItems_eq, array.injEq,
        List.map_map] at h
      exact .array (forall₂_imp_mem (map_eq_map_iff.mp h) fun x hx y hxy => ih x hx y hxy)
    | _ => simp [Style.sorted, map] at h
  | object fs ih =>
    cases w with
    | object gs =>
      simp only [Style.sorted, map, Style.sortedFields_eq, Style.arrange_map_snd, mapFields_eq,
        object.injEq, List.map_map] at h
      have hkeys := congrArg (List.map Prod.fst) h
      have hvalues := congrArg (List.map Prod.snd) h
      simp only [List.map_map] at hkeys hvalues
      refine .object (S.arrange_perm fs).symm (T.arrange_perm gs).symm hkeys ?_
      refine forall₂_imp_mem ((map_eq_map_iff (f := fun x => (S.sorted x).map id q)
        (g := fun y => (T.sorted y).map id r)).mp
          (by rw [List.map_map, List.map_map]; exact hvalues)) fun x hx y hxy => ?_
      obtain ⟨f, hf, rfl⟩ := List.mem_map.mp hx
      exact ih f ((S.arrange_perm fs).subset hf) y hxy
    | _ => simp [Style.sorted, map] at h

/-- A value whose entries may stay as they are is sorted. -/
theorem sorted_unordered (S : Style σ ν) (v : Value σ ν) : S.unordered.sorted v = v := by
  induction v using Value.induct with
  | null | bool | number | string => rfl
  | array items ih =>
    have hitems : items.map S.unordered.sorted = items.map id := List.map_congr_left ih
    rw [Style.sorted, Style.sortedItems_eq, hitems, List.map_id]
  | object fields ih =>
    have hfields : fields.map (fun f => (f.1, S.unordered.sorted f.2)) = fields.map id :=
      List.map_congr_left fun f hf => Prod.ext rfl (ih f hf)
    rw [Style.sorted, Style.sortedFields_eq, Style.arrange_unordered, hfields, List.map_id]

theorem map_id (v : Value σ ν) : v.map id id = v := by
  induction v using Value.induct with
  | null | bool | number | string => rfl
  | array items ih =>
    have hitems : items.map (map id id) = items.map id := List.map_congr_left ih
    rw [map, mapItems_eq, hitems, List.map_id]
  | object fields ih =>
    have hfields : fields.map (fun f => (id f.1, f.2.map id id)) = fields.map id :=
      List.map_congr_left fun f hf => Prod.ext rfl (ih f hf)
    rw [map, mapFields_eq, hfields, List.map_id]

/-- Sorting and reading keeps a value up to the order of entries and the reading of numbers. -/
theorem matches_sorted (S : Style σ ν) (q : ν → ρ) {R : ν → ρ → Prop} (hread : ∀ n, R n (q n))
    (v : Value σ ν) : Matches R v ((S.sorted v).map id q) := by
  let T : Style σ ρ := ⟨fun _ => [], fun _ => [], fun _ => [], fun _ _ => true⟩
  have himage : ∀ n x, q n = id x → R n x := by
    rintro n x rfl
    exact hread n
  refine matches_of_sorted_eq S T.unordered himage v _ ?_
  rw [sorted_unordered]
  exact (map_id _).symm

/-! ## Independence of the order of entries -/

/-- An item of the second list has a partner in the first one. -/
theorem exists_of_forall₂ {α β : Type} {R : α → β → Prop} {xs : List α} {ys : List β}
    (h : List.Forall₂ R xs ys) {y : β} (hy : y ∈ ys) : ∃ x ∈ xs, R x y := by
  induction h with
  | nil => cases hy
  | @cons x z xs ys hxz _ ih =>
    rcases List.mem_cons.mp hy with rfl | hy
    · exact ⟨x, by simp, hxz⟩
    · obtain ⟨x', hx', hR⟩ := ih hy
      exact ⟨x', List.mem_cons_of_mem _ hx', hR⟩

/-- Values that are equal up to the order of entries have the same strings and numbers. -/
theorem Matches.all {string : σ → Prop} {number : ν → Prop} {v w : Value σ ν} (h : v.Matches Eq w)
    (hv : v.All (fun _ => True) string number) : w.All (fun _ => True) string number := by
  induction w using Value.induct generalizing v with
  | null | bool => trivial
  | number n =>
    cases h with
    | number heq => exact heq ▸ hv
  | string s => cases h; exact hv
  | array ys ih =>
    cases h with
    | @array xs _ hitems =>
      simp only [All, allItems_iff] at hv ⊢
      intro y hy
      obtain ⟨x, hx, hxy⟩ := exists_of_forall₂ hitems hy
      exact ih y hy hxy (hv x hx)
  | object gs ih =>
    cases h with
    | @object fs fs' _ gs' hleft hright hkeys hvalues =>
      simp only [All, allFields_iff, true_and] at hv ⊢
      intro g hg
      obtain ⟨x, hx, hxy⟩ := exists_of_forall₂ hvalues (List.mem_map_of_mem (hright.subset hg))
      obtain ⟨f, hf, rfl⟩ := List.mem_map.mp hx
      exact ih g hg hxy (hv f (hleft.symm.subset hf))

end Value

namespace Style

variable {σ τ ν μ α β : Type}

section

variable (S : Style σ ν) (htotal : ∀ k l, S.le k l ∨ S.le l k)
  (htrans : ∀ k l m, S.le k l → S.le l m → S.le k m)
  (hantisymm : ∀ k l, S.le k l → S.le l k → k = l)
include htotal htrans hantisymm

/-- Entries with distinct keys have one sorted order. -/
theorem arrange_eq_of_perm {fs gs : List (σ × α)} (hperm : fs.Perm gs)
    (hdistinct : (fs.map Prod.fst).Nodup) : S.arrange fs = S.arrange gs := by
  have : Std.Total fun f g : σ × α => (S.le f.1 g.1 : Prop) := ⟨fun f g => htotal f.1 g.1⟩
  have : IsTrans (σ × α) fun f g => (S.le f.1 g.1 : Prop) := ⟨fun f g h => htrans f.1 g.1 h.1⟩
  have hleft := S.arrange_perm fs
  have hright := S.arrange_perm gs
  refine @List.Perm.eq_of_pairwise _ (fun f g => S.le f.1 g.1) _ _ ?_
    (List.pairwise_insertionSort _ _) (List.pairwise_insertionSort _ _)
    (hleft.trans (hperm.trans hright.symm))
  intro f g hf hg hfg hgf
  exact List.inj_on_of_nodup_map hdistinct (hleft.subset hf)
    (hperm.symm.subset (hright.subset hg)) (hantisymm _ _ hfg hgf)

/-- The text of a value does not depend on the order of the entries of its objects. -/
theorem print_eq_of_matches (v w : Value σ ν) (hdistinct : v.Distinct) (h : v.Matches Eq w) :
    S.print v = S.print w := by
  induction v using Value.induct generalizing w with
  | null | bool | string => cases h; rfl
  | number n =>
    cases h with
    | number heq => rw [heq]
  | array xs ih =>
    cases h with
    | array hitems =>
      simp only [Value.Distinct, Value.All, Value.allItems_iff] at hdistinct
      have hprinted := Value.map_eq_map_iff.mpr
        (Value.forall₂_imp_mem hitems fun x hx y hxy => ih x hx y (hdistinct x hx) hxy)
      rw [print, print, printItems_eq, printItems_eq, hprinted]
  | object fs ih =>
    cases h with
    | @object _ fs' gs gs' hleft hright hkeys hvalues =>
      simp only [Value.Distinct, Value.All, Value.allFields_iff] at hdistinct
      have hprinted : (fs'.map Prod.snd).map S.print = (gs'.map Prod.snd).map S.print := by
        refine Value.map_eq_map_iff.mpr (Value.forall₂_imp_mem hvalues fun x hx y hxy => ?_)
        obtain ⟨f, hf, rfl⟩ := List.mem_map.mp hx
        have hmem := hleft.symm.subset hf
        exact ih f hmem y (hdistinct.2 f hmem) hxy
      have hentries : (fs'.map fun f => (f.1, S.print f.2)) =
          gs'.map fun g => (g.1, S.print g.2) := by
        rw [List.map_map, List.map_map] at hprinted
        have hzip := congrArg₂ List.zip hkeys hprinted
        rwa [List.zip_map', List.zip_map'] at hzip
      have hperm : (fs.map fun f => (f.1, S.print f.2)).Perm
          (gs.map fun g => (g.1, S.print g.2)) := by
        have hmid := hleft.map fun f => (f.1, S.print f.2)
        rw [hentries] at hmid
        exact hmid.trans (hright.map _).symm
      have hnodup : ((fs.map fun f => (f.1, S.print f.2)).map Prod.fst).Nodup := by
        rw [List.map_map]
        exact hdistinct.1
      rw [print, print, printFields_eq, printFields_eq,
        S.arrange_eq_of_perm htotal htrans hantisymm hperm hnodup]

end

/-! ## Characters and length -/

theorem mem_commas {c : Char} {texts : List (List Char)} (h : c ∈ commas texts) :
    c = ',' ∨ ∃ text ∈ texts, c ∈ text := by
  induction texts with
  | nil => cases h
  | cons text rest ih =>
    cases rest with
    | nil => exact Or.inr ⟨text, by simp, h⟩
    | cons next rest =>
      rw [commas, List.mem_append, List.mem_cons] at h
      · rcases h with h | rfl | h
        · exact Or.inr ⟨text, by simp, h⟩
        · exact Or.inl rfl
        · rcases ih h with rfl | ⟨t, ht, hc⟩
          · exact Or.inl rfl
          · exact Or.inr ⟨t, List.mem_cons_of_mem _ ht, hc⟩
      · simp

/-- What holds of brackets, of commas and of the characters of some texts. -/
theorem forall_mem_brackets {p : Char → Prop} {opening closing : Char} {texts : List (List Char)}
    (hpunctuation : p opening ∧ p closing ∧ p ',') (htexts : ∀ text ∈ texts, ∀ c ∈ text, p c) :
    ∀ c ∈ opening :: (commas texts ++ [closing]), p c := by
  intro c hc
  rw [List.mem_cons, List.mem_append, List.mem_singleton] at hc
  rcases hc with rfl | hc | rfl
  · exact hpunctuation.1
  · rcases mem_commas hc with rfl | ⟨text, htext, hc⟩
    · exact hpunctuation.2.2
    · exact htexts text htext c hc
  · exact hpunctuation.2.1

/-- What holds of the characters of all parts and of punctuation holds of all characters. -/
theorem forall_mem_print (S : Style σ ν) {p : Char → Prop}
    (hpunctuation : ∀ c ∈ "{}[]:,nulltruefalse".toList, p c) (hkey : ∀ k, ∀ c ∈ S.key k, p c)
    (hstring : ∀ s, ∀ c ∈ S.string s, p c) (hnumber : ∀ n, ∀ c ∈ S.number n, p c)
    (v : Value σ ν) : ∀ c ∈ S.print v, p c := by
  induction v using Value.induct with
  | null =>
    intro c hc
    exact hpunctuation c (by revert hc; simp [print]; tauto)
  | bool b =>
    intro c hc
    exact hpunctuation c (by cases b <;> revert hc <;> simp [print] <;> tauto)
  | number n => exact hnumber n
  | string s => exact hstring s
  | array items ih =>
    rw [print, printItems_eq]
    refine forall_mem_brackets ⟨hpunctuation _ (by simp), hpunctuation _ (by simp),
      hpunctuation _ (by simp)⟩ fun text htext => ?_
    obtain ⟨x, hx, rfl⟩ := List.mem_map.mp htext
    exact ih x hx
  | object fields ih =>
    rw [print, printFields_eq]
    refine forall_mem_brackets ⟨hpunctuation _ (by simp), hpunctuation _ (by simp),
      hpunctuation _ (by simp)⟩ fun text htext c hc => ?_
    obtain ⟨x, hx, rfl⟩ := List.mem_map.mp htext
    obtain ⟨f, hf, rfl⟩ := List.mem_map.mp ((S.arrange_perm _).subset hx)
    rw [field, List.mem_append, List.mem_cons] at hc
    rcases hc with hc | rfl | hc
    · exact hkey _ c hc
    · exact hpunctuation _ (by simp)
    · exact ih f hf c hc

/-- The length of texts with a comma after each. -/
def commasWidth : List ℕ → ℕ
  | [] => 0
  | width :: rest => width + 1 + commasWidth rest

/-- The length of texts with commas between them. -/
def commaWidth (widths : List ℕ) : ℕ := commasWidth widths - 1

theorem commaWidth_perm {ms ns : List ℕ} (h : ms.Perm ns) : commaWidth ms = commaWidth ns := by
  refine congrArg (· - 1) ?_
  induction h with
  | nil => rfl
  | cons n _ ih => rw [commasWidth, commasWidth, ih]
  | swap m n _ =>
    simp only [commasWidth]
    omega
  | trans _ _ ihleft ihright => exact ihleft.trans ihright

theorem length_commas (texts : List (List Char)) :
    (commas texts).length = commaWidth (texts.map List.length) := by
  induction texts with
  | nil => rfl
  | cons text rest ih =>
    cases rest with
    | nil => rfl
    | cons next rest =>
      rw [commas, List.length_append, List.length_cons, ih]
      · simp only [commaWidth, commasWidth, List.map_cons]
        omega
      · simp

theorem length_print_array (S : Style σ ν) (items : List (Value σ ν)) :
    (S.print (.array items)).length = commaWidth (items.map fun x => (S.print x).length) + 2 := by
  rw [print, printItems_eq, List.length_cons, List.length_append, length_commas, List.map_map]
  rfl

/-- The order of the entries does not matter for the length. -/
theorem length_print_object (S : Style σ ν) (fields : List (σ × Value σ ν)) :
    (S.print (.object fields)).length =
      commaWidth (fields.map fun f => (S.key f.1).length + 1 + (S.print f.2).length) + 2 := by
  have hperm := ((S.arrange_perm (fields.map fun f => (f.1, S.print f.2))).map S.field).map
    List.length
  rw [print, printFields_eq, List.length_cons, List.length_append, length_commas]
  refine congrArg (· + 2) ((commaWidth_perm hperm).trans (congrArg commaWidth ?_))
  rw [List.map_map, List.map_map]
  refine List.map_congr_left fun f _ => ?_
  simp only [Function.comp_apply, field, List.length_append, List.length_cons]
  omega

/-- Widths that are compared item by item. -/
theorem commaWidth_le {items : List α} {m n : α → ℕ} {good : α → Prop}
    (h : ∀ x ∈ items, m x ≤ n x ∧ (m x = n x → good x)) :
    commaWidth (items.map m) ≤ commaWidth (items.map n) ∧
      (commaWidth (items.map m) = commaWidth (items.map n) → ∀ x ∈ items, good x) := by
  have hall : commasWidth (items.map m) ≤ commasWidth (items.map n) ∧
      (commasWidth (items.map m) = commasWidth (items.map n) → ∀ x ∈ items, good x) := by
    induction items with
    | nil => simp
    | cons x xs ih =>
      obtain ⟨hle, heq⟩ := h x (by simp)
      obtain ⟨hles, heqs⟩ := ih fun y hy => h y (List.mem_cons_of_mem _ hy)
      simp only [commasWidth, List.map_cons, List.forall_mem_cons]
      exact ⟨by omega, fun hboth => ⟨heq (by omega), heqs (by omega)⟩⟩
  unfold commaWidth
  refine ⟨by omega, fun hboth => ?_⟩
  cases items with
  | nil => simp
  | cons x xs =>
    refine hall.2 ?_
    simp only [commasWidth, List.map_cons] at hboth ⊢
    omega

/-- A style that writes no part shorter writes no value shorter, and a value is written as
short only if its parts are. -/
theorem length_print_le (S : Style σ ν) (T : Style τ μ) (f : σ → τ) (g : ν → μ)
    (hkey : ∀ k, (S.key k).length ≤ (T.key (f k)).length)
    (hstring : ∀ s, (S.string s).length ≤ (T.string (f s)).length)
    (hnumber : ∀ n, (S.number n).length ≤ (T.number (g n)).length) (v : Value σ ν) :
    (S.print v).length ≤ (T.print (v.map f g)).length ∧
      ((S.print v).length = (T.print (v.map f g)).length →
        v.All (Value.AllKeys fun k => (S.key k).length = (T.key (f k)).length)
          (fun s => (S.string s).length = (T.string (f s)).length)
          fun n => (S.number n).length = (T.number (g n)).length) := by
  induction v using Value.induct with
  | null | bool => exact ⟨le_rfl, fun _ => trivial⟩
  | number n => exact ⟨hnumber n, id⟩
  | string s => exact ⟨hstring s, id⟩
  | array items ih =>
    have hitems := commaWidth_le ih
    simp only [Value.map, Value.mapItems_eq, length_print_array, Value.All, Value.allItems_iff,
      List.map_map, Function.comp_def]
    exact ⟨by omega, fun heq => hitems.2 (by omega)⟩
  | object fields ih =>
    have hstep : ∀ x ∈ fields,
        (S.key x.1).length + 1 + (S.print x.2).length ≤
          (T.key (f x.1)).length + 1 + (T.print (x.2.map f g)).length ∧
        ((S.key x.1).length + 1 + (S.print x.2).length =
            (T.key (f x.1)).length + 1 + (T.print (x.2.map f g)).length →
          (S.key x.1).length = (T.key (f x.1)).length ∧
            (S.print x.2).length = (T.print (x.2.map f g)).length) := by
      intro x hx
      have hk := hkey x.1
      have hx := (ih x hx).1
      omega
    have hfields := commaWidth_le hstep
    simp only [Value.map, Value.mapFields_eq, length_print_object, Value.All, Value.allFields_iff,
      List.map_map, Function.comp_def]
    refine ⟨by omega, fun heq => ?_⟩
    have hall := hfields.2 (by omega)
    exact ⟨List.forall_mem_map.mpr fun x hx => (hall x hx).1,
      fun x hx => (ih x hx).2 (hall x hx).2⟩

end Style

end Text
