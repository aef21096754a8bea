import Mathlib.Data.List.Basic

/-!
# Programs over atomic statements

A caller of a shared store is a finite program: it issues one statement, waits for its
reply, and continues with a program that depends on the reply. A contract says what must
have run before each statement and each result, and is checked on the program text alone.
-/

/-- Membership in a list that grows at its end, as traces do. -/
theorem List.mem_snoc {α : Type*} {l : List α} {a b : α} : a ∈ l ++ [b] ↔ a ∈ l ∨ a = b := by
  rw [List.mem_append, List.mem_singleton]

theorem List.forall_mem_snoc {α : Type*} {p : α → Prop} {l : List α} {a : α}
    (h : ∀ x ∈ l, p x) (ha : p a) : ∀ x ∈ l ++ [a], p x :=
  List.forall_mem_append.mpr ⟨h, by simpa using ha⟩

namespace Concurrent

variable {Stmt : Type} {Ret : Stmt → Type} {ε α β : Type}

/-- A program that issues statements of an interface `Stmt`, each answered by a
value of `Ret` or by an error, and that ends in a value or an error. -/
inductive Program (Stmt : Type) (Ret : Stmt → Type) (ε α : Type) : Type where
  /-- The program has ended. -/
  | done (result : Except ε α)
  /-- Issue one statement and continue with its reply. -/
  | call (st : Stmt) (next : Except ε (Ret st) → Program Stmt Ret ε α)

/-- One executed statement together with its reply. -/
abbrev Ran (Stmt : Type) (Ret : Stmt → Type) (ε : Type) : Type :=
  (st : Stmt) × Except ε (Ret st)

variable {p q : Program Stmt Ret ε α} {st : Stmt} {f : α → Program Stmt Ret ε β}

namespace Program

/-- Sequencing. An error of the first program is the error of the whole. -/
def bind : Program Stmt Ret ε α → (α → Program Stmt Ret ε β) → Program Stmt Ret ε β
  | .done (.ok a), f => f a
  | .done (.error e), _ => .done (.error e)
  | .call st next, f => .call st fun reply => (next reply).bind f

instance : Monad (Program Stmt Ret ε) where
  pure a := .done (.ok a)
  bind := bind

/-- End with an error. -/
def fail (e : ε) : Program Stmt Ret ε α := .done (.error e)

/-- Issue a single statement and return its reply. -/
def stmt (st : Stmt) : Program Stmt Ret ε (Ret st) := .call st .done

/-- Run a program and hand its error to the caller as a value. -/
def attempt : Program Stmt Ret ε α → Program Stmt Ret ε (Except ε α)
  | .done r => .done (.ok r)
  | .call st next => .call st fun reply => (next reply).attempt

/-- Sequencing is associative. -/
theorem bind_assoc {γ : Type} (p : Program Stmt Ret ε α) (f : α → Program Stmt Ret ε β)
    (g : β → Program Stmt Ret ε γ) : p >>= f >>= g = p >>= fun a => f a >>= g := by
  induction p with
  | done r => cases r <;> rfl
  | call st next ih => exact congrArg (Program.call st) (funext ih)

/-! ## Contracts -/

/-- `Satisfies pre post past p`: after a past of executed statements, every statement that `p` can
issue meets `pre` at the past it is issued in, and every result meets `post`, whatever the replies
are. -/
def Satisfies (pre : List (Ran Stmt Ret ε) → Stmt → Prop)
    (post : List (Ran Stmt Ret ε) → Except ε α → Prop) :
    List (Ran Stmt Ret ε) → Program Stmt Ret ε α → Prop
  | past, .done r => post past r
  | past, .call st next =>
      pre past st ∧ ∀ reply, Satisfies pre post (past ++ [⟨st, reply⟩]) (next reply)

variable {pre : List (Ran Stmt Ret ε) → Stmt → Prop}
  {post : List (Ran Stmt Ret ε) → Except ε α → Prop} {past : List (Ran Stmt Ret ε)}
  {past : List (Ran Stmt Ret ε)}

/-- The postcondition of the first part of a sequence: the second part satisfies
the contract from there, and an early error meets the overall postcondition. -/
def Handoff (pre : List (Ran Stmt Ret ε) → Stmt → Prop)
    (post : List (Ran Stmt Ret ε) → Except ε β → Prop) (f : α → Program Stmt Ret ε β) :
    List (Ran Stmt Ret ε) → Except ε α → Prop
  | past, .ok a => Satisfies pre post past (f a)
  | past, .error e => post past (.error e)

/-- A contract is checked part by part along a sequence of programs. -/
theorem Satisfies.bind {post : List (Ran Stmt Ret ε) → Except ε β → Prop}
    (h : Satisfies pre (Handoff pre post f) past p) : Satisfies pre post past (p >>= f) := by
  induction p generalizing past with
  | done r =>
    cases r with
    | ok | error => exact h
  | call st next ih => exact ⟨h.1, fun reply => ih reply (h.2 reply)⟩

/-- Weakening a contract: fewer demands on statements and on results. -/
theorem Satisfies.mono {pre' : List (Ran Stmt Ret ε) → Stmt → Prop}
    {post' : List (Ran Stmt Ret ε) → Except ε α → Prop} (h : Satisfies pre post past p)
    (hpre : ∀ past st, pre past st → pre' past st)
    (hpost : ∀ past r, post past r → post' past r) : Satisfies pre' post' past p := by
  induction p generalizing past with
  | done r => exact hpost past r h
  | call st next ih => exact ⟨hpre past st h.1, fun reply => ih reply (h.2 reply)⟩

/-- The second part goes on from what the first one ensures. -/
theorem Satisfies.andThen {post' : List (Ran Stmt Ret ε) → Except ε β → Prop}
    (h : Satisfies pre post past p) (hnext : ∀ past r, post past r → Handoff pre post' f past r) :
    Satisfies pre post' past (p >>= f) :=
  .bind (h.mono (fun _ _ hpre => hpre) hnext)

/-- A program only adds to the past it starts from. -/
theorem Satisfies.grown (h : Satisfies pre post past p) :
    Satisfies pre (fun after r => past <+: after ∧ post after r) past p := by
  induction p generalizing past with
  | done r => exact ⟨List.prefix_rfl, h⟩
  | call st next ih =>
    refine ⟨h.1, fun reply => (ih reply (h.2 reply)).mono (fun _ _ hpre => hpre) ?_⟩
    rintro after r ⟨hmore, hpost⟩
    exact ⟨(List.prefix_append _ _).trans hmore, hpost⟩

/-- A single statement satisfies a contract as soon as it meets its own
precondition and every reply to it meets the postcondition. -/
theorem satisfies_stmt {post : List (Ran Stmt Ret ε) → Except ε (Ret st) → Prop}
    (hpre : pre past st) (hpost : ∀ reply, post (past ++ [⟨st, reply⟩]) reply) :
    Satisfies pre post past (stmt st) := ⟨hpre, hpost⟩

/-- A statement followed by more of the program: it meets its own precondition, an error of it meets
the postcondition, and the rest satisfies the contract after every other reply. -/
theorem satisfies_stmt_bind {post : List (Ran Stmt Ret ε) → Except ε β → Prop}
    {f : Ret st → Program Stmt Ret ε β} (hpre : pre past st)
    (herror : ∀ e, post (past ++ [⟨st, .error e⟩]) (.error e))
    (hok : ∀ a, Satisfies pre post (past ++ [⟨st, .ok a⟩]) (f a)) :
    Satisfies pre post past (stmt st >>= f) := by
  refine Satisfies.bind (satisfies_stmt hpre ?_)
  rintro (e | a)
  · exact herror e
  · exact hok a

/-- Catching an error turns it into a value of the contract's result. -/
theorem Satisfies.attempt {post : List (Ran Stmt Ret ε) → Except ε (Except ε α) → Prop}
    (h : Satisfies pre (fun past r => post past (.ok r)) past p) :
    Satisfies pre post past p.attempt := by
  induction p generalizing past with
  | done r => exact h
  | call st next ih => exact ⟨h.1, fun reply => ih reply (h.2 reply)⟩

/-- A contract that asks for nothing is met by every program. -/
theorem satisfies_of_forall (hpre : ∀ past st, pre past st) (hpost : ∀ past r, post past r)
    (past : List (Ran Stmt Ret ε)) (p : Program Stmt Ret ε α) : Satisfies pre post past p := by
  induction p generalizing past with
  | done r => exact hpost past r
  | call st next ih => exact ⟨hpre past st, fun reply => ih reply _⟩

/-- What every statement of a past and of the program keeps to holds of the whole past. -/
theorem Satisfies.all {P : Stmt → Prop} (h : Satisfies pre post past p)
    (hpre : ∀ past st, pre past st → P st) (hpast : ∀ x ∈ past, P x.1) :
    Satisfies pre (fun after r => (∀ x ∈ after, P x.1) ∧ post after r) past p := by
  induction p generalizing past with
  | done r => exact ⟨hpast, h⟩
  | call st next ih =>
    refine ⟨h.1, fun reply => ih reply (h.2 reply) ?_⟩
    intro x hx
    rcases List.mem_snoc.mp hx with hold | rfl
    · exact hpast x hold
    · exact hpre past st h.1

/-! ## Kinds of statements -/

/-- Every statement of a program is of one kind. -/
def Issues (P : Stmt → Prop) (p : Program Stmt Ret ε α) : Prop :=
  ∀ past, Satisfies (fun _ st => P st) (fun _ _ => True) past p

section Issues

variable {P : Stmt → Prop}

theorem Issues.done (r : Except ε α) : Issues P (Program.done r : Program Stmt Ret ε α) :=
  fun _ => trivial

theorem Issues.stmt (h : P st) : Issues P (stmt st : Program Stmt Ret ε (Ret st)) :=
  fun _ => ⟨h, fun _ => trivial⟩

theorem Issues.bind (hp : Issues P p) (hf : ∀ a, Issues P (f a)) : Issues P (p >>= f) := by
  intro past
  refine (hp past).andThen ?_
  rintro past (e | a) -
  · trivial
  · exact hf a past

theorem Issues.mono {Q : Stmt → Prop} (hp : Issues P p) (h : ∀ st, P st → Q st) : Issues Q p :=
  fun past => (hp past).mono (fun _ st hst => h st hst) fun _ _ hr => hr

theorem Issues.attempt (hp : Issues P p) : Issues P p.attempt :=
  fun past => Satisfies.attempt (hp past)

end Issues

/-! ## Expected replies -/

section Expected

variable {expected : Ran Stmt Ret ε → Prop} {past : List (Ran Stmt Ret ε)}

/-- A postcondition that matters only when all replies were of an expected kind. -/
def Expected (expected : Ran Stmt Ret ε → Prop) (post : Except ε α → Prop)
    (past : List (Ran Stmt Ret ε)) (r : Except ε α) : Prop :=
  (∀ x ∈ past, expected x) → post r

/-- After an unexpected reply nothing is asked any more. -/
theorem satisfies_unexpected {post : Except ε α → Prop} {x : Ran Stmt Ret ε} (hx : x ∈ past)
    (hnot : ¬ expected x) (p : Program Stmt Ret ε α) :
    Satisfies (fun _ _ => True) (Expected expected post) past p := by
  induction p generalizing past with
  | done r =>
    intro hall
    exact absurd (hall x hx) hnot
  | call st next ih => exact ⟨trivial, fun reply => ih reply (List.mem_append_left _ hx)⟩

/-- A statement that is expected to succeed, followed by more of the program. -/
theorem expected_stmt_bind {post : Except ε β → Prop} {f : Ret st → Program Stmt Ret ε β}
    (herror : ∀ e, ¬ expected ⟨st, .error e⟩) (hok : ∀ a, expected ⟨st, .ok a⟩ →
      Satisfies (fun _ _ => True) (Expected expected post) (past ++ [⟨st, .ok a⟩]) (f a)) :
    Satisfies (fun _ _ => True) (Expected expected post) past (stmt st >>= f) := by
  refine satisfies_stmt_bind trivial (fun e hall => ?_) fun a => ?_
  · exact absurd (hall ⟨st, .error e⟩ (by simp)) (herror e)
  · by_cases ha : expected ⟨st, .ok a⟩
    · exact hok a ha
    · exact satisfies_unexpected (x := ⟨st, .ok a⟩) (by simp) ha (f a)

/-- A part that is expected to succeed, followed by more of the program. -/
theorem expected_bind {post : Except ε β → Prop}
    (hp : Satisfies (fun _ _ => True) (Expected expected fun r => ∃ a, r = .ok a) past p)
    (hf : ∀ past a, Satisfies (fun _ _ => True) (Expected expected post) past (f a)) :
    Satisfies (fun _ _ => True) (Expected expected post) past (p >>= f) := by
  refine hp.andThen ?_
  rintro past' (e | a) hok
  · intro hall
    obtain ⟨a, ha⟩ := hok hall
    cases ha
  · exact hf past' a

end Expected

/-! ## Paths through a program -/

/-- `Path p past q`: running the statements `past` with their replies leads from
`p` to the remaining program `q`. -/
inductive Path (p : Program Stmt Ret ε α) :
    List (Ran Stmt Ret ε) → Program Stmt Ret ε α → Prop
  | nil : Path p [] p
  | snoc {past : List (Ran Stmt Ret ε)} {st : Stmt}
      {next : Except ε (Ret st) → Program Stmt Ret ε α} (reply : Except ε (Ret st)) :
      Path p past (.call st next) → Path p (past ++ [⟨st, reply⟩]) (next reply)

/-- A contract of a program holds at the end of each of its paths. -/
theorem Path.satisfies
    (hpath : Path p past q) (h : Satisfies pre post [] p) : Satisfies pre post past q := by
  induction hpath with
  | nil => exact h
  | snoc reply _ ih => exact ih.2 reply

/-- Every statement on a path was issued under its precondition, at the part of
the path before it. -/
theorem Path.pre_of_mem (hpath : Path p past q) (h : Satisfies pre post [] p)
    {reply : Except ε (Ret st)} (hmem : ⟨st, reply⟩ ∈ past) :
    ∃ before, before <+: past ∧ ⟨st, reply⟩ ∉ before ∧ pre before st := by
  induction hpath with
  | nil => simp at hmem
  | @snoc past' st' next reply' hpath' ih =>
    by_cases hold : ⟨st, reply⟩ ∈ past'
    · obtain ⟨before, hprefix, hfirst, hpre⟩ := ih hold
      exact ⟨before, hprefix.trans (List.prefix_append _ _), hfirst, hpre⟩
    · have heq : (⟨st, reply⟩ : Ran Stmt Ret ε) = ⟨st', reply'⟩ := by
        rcases List.mem_append.mp hmem with hmem | hmem
        · exact absurd hmem hold
        · simpa using hmem
      obtain ⟨rfl, -⟩ := Sigma.mk.inj heq
      exact ⟨past', List.prefix_append _ _, hold, (hpath'.satisfies h).1⟩

/-- What every statement keeps, whatever its reply, holds of every path. -/
theorem Path.invariant (hpath : Path p past q)
    (h : Satisfies pre post [] p) {P : List (Ran Stmt Ret ε) → Prop} (hnil : P [])
    (hsnoc : ∀ past st, pre past st → P past → ∀ reply, P (past ++ [⟨st, reply⟩])) : P past := by
  induction hpath with
  | nil => exact hnil
  | snoc reply hpath' ih => exact hsnoc _ _ (hpath'.satisfies h).1 ih reply

/-- A kind of statement that is issued only while none of its kind has run occurs
at most once on a path. -/
theorem Path.once (hpath : Path p past q) (h : Satisfies pre post [] p) {kind : Stmt → Bool}
    (hkind : ∀ past st, pre past st → kind st = true → ∀ r ∈ past, kind r.1 = false)
    {x y : Ran Stmt Ret ε} (hx : x ∈ past) (hy : y ∈ past) (hkx : kind x.1 = true)
    (hky : kind y.1 = true) : x = y := by
  refine hpath.invariant (P := fun past => ∀ x ∈ past, ∀ y ∈ past, kind x.1 = true →
    kind y.1 = true → x = y) h (by simp) ?_ x hx y hy hkx hky
  intro past st hpre ih reply x hx y hy hkx hky
  rcases List.mem_append.mp hx with hx | hx <;> rcases List.mem_append.mp hy with hy | hy
  · exact ih x hx y hy hkx hky
  · obtain rfl := List.mem_singleton.mp hy
    simp [hkind past st hpre hky x hx] at hkx
  · obtain rfl := List.mem_singleton.mp hx
    simp [hkind past st hpre hkx y hy] at hky
  · exact (List.mem_singleton.mp hx).trans (List.mem_singleton.mp hy).symm

end Program

end Concurrent
