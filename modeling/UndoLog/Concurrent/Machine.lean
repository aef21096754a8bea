import Mathlib.Logic.Function.Basic
import Mathlib.Logic.Relation
import UndoLog.Concurrent.Program

/-!
# Interleaved runs of programs on a shared store

Calls of a service run concurrently: each one is a program, and the statements of
different programs reach the shared store in any order. A configuration holds the store,
what is left of every running call, and the trace of what has happened. What a statement
reads from outside the store comes from an oracle value of the scheduler.
-/

namespace Concurrent

/-- A shared store with its statements, and the programs that callers may run. -/
structure Machine where
  /-- Statements of the store. -/
  Stmt : Type
  /-- Reply type of each statement. -/
  Ret : Stmt → Type
  /-- Errors of statements and calls. -/
  Err : Type
  /-- Calls that clients may start. -/
  Op : Type
  /-- Results of calls. -/
  Result : Type
  /-- Steps the surroundings of the store may take by themselves. -/
  Env : Type
  /-- What a statement reads from outside the store. -/
  Oracle : Type
  /-- The shared state. -/
  Store : Type
  /-- One atomic statement of a given call. `none` means that it cannot run now. -/
  exec : ℕ → Oracle → (st : Stmt) → Store → Option (Except Err (Ret st) × Store)
  /-- The program of each call. -/
  program : Op → Program Stmt Ret Err Result
  /-- What the store does when a call disappears. -/
  abort : ℕ → Store → Store
  /-- One step of the surroundings. -/
  environment : Env → Store → Option Store

namespace Machine

variable {M : Machine}

/-- A remaining program of a machine. -/
abbrev Prog (M : Machine) : Type := Program M.Stmt M.Ret M.Err M.Result

/-- What can be observed of a run. -/
inductive Event (M : Machine) : Type
  /-- A call started. -/
  | started (t : ℕ) (op : M.Op)
  /-- A call ran one statement. -/
  | ran (t : ℕ) (st : M.Stmt) (reply : Except M.Err (M.Ret st))
  /-- A call returned. -/
  | returned (t : ℕ) (result : Except M.Err M.Result)
  /-- A call disappeared without returning. -/
  | crashed (t : ℕ)
  /-- The surroundings took a step. -/
  | environment (e : M.Env)

/-- A state of the concurrent system with the history that led to it. -/
structure Config (M : Machine) where
  /-- The shared store. -/
  store : M.Store
  /-- What every running call still has to do. -/
  calls : ℕ → Option M.Prog
  /-- The number of the next call. -/
  next : ℕ
  /-- Everything that happened, oldest first. -/
  trace : List M.Event

/-- The scheduler's next choice. -/
inductive Choice (M : Machine) : Type
  | start (op : M.Op)
  | run (t : ℕ) (o : M.Oracle)
  | finish (t : ℕ)
  | crash (t : ℕ)
  | environment (e : M.Env)

/-- No call has started. -/
def Config.initial (s : M.Store) : Config M where
  store := s
  calls := fun _ => none
  next := 0
  trace := []

/-- One step of the concurrent system. -/
def step (c : Config M) : Choice M → Option (Config M)
  | .start op => some
      { c with
        calls := Function.update c.calls c.next (some (M.program op))
        next := c.next + 1
        trace := c.trace ++ [.started c.next op] }
  | .run t o =>
    match c.calls t with
    | some (.call st next) =>
      match M.exec t o st c.store with
      | some (reply, store) => some
          { c with
            store := store
            calls := Function.update c.calls t (some (next reply))
            trace := c.trace ++ [.ran t st reply] }
      | none => none
    | _ => none
  | .finish t =>
    match c.calls t with
    | some (.done r) => some
        { c with
          calls := Function.update c.calls t none
          trace := c.trace ++ [.returned t r] }
    | _ => none
  | .crash t =>
    match c.calls t with
    | some _ => some
        { c with
          store := M.abort t c.store
          calls := Function.update c.calls t none
          trace := c.trace ++ [.crashed t] }
    | none => none
  | .environment e =>
    match M.environment e c.store with
    | some store => some { c with store := store, trace := c.trace ++ [.environment e] }
    | none => none

/-- The cases of a step, with the data each of them depends on. -/
inductive Transition (c : Config M) : Choice M → Config M → Prop
  | start (op : M.Op) : Transition c (.start op)
      { c with
        calls := Function.update c.calls c.next (some (M.program op))
        next := c.next + 1
        trace := c.trace ++ [.started c.next op] }
  | run {t : ℕ} {o : M.Oracle} {st : M.Stmt} {next : Except M.Err (M.Ret st) → M.Prog}
      {reply : Except M.Err (M.Ret st)} {store : M.Store}
      (hcall : c.calls t = some (.call st next))
      (hexec : M.exec t o st c.store = some (reply, store)) : Transition c (.run t o)
      { c with
        store := store
        calls := Function.update c.calls t (some (next reply))
        trace := c.trace ++ [.ran t st reply] }
  | finish {t : ℕ} {r : Except M.Err M.Result} (hcall : c.calls t = some (.done r)) :
      Transition c (.finish t)
      { c with
        calls := Function.update c.calls t none
        trace := c.trace ++ [.returned t r] }
  | crash {t : ℕ} {p : M.Prog} (hcall : c.calls t = some p) : Transition c (.crash t)
      { c with
        store := M.abort t c.store
        calls := Function.update c.calls t none
        trace := c.trace ++ [.crashed t] }
  | environment {e : M.Env} {store : M.Store} (henv : M.environment e c.store = some store) :
      Transition c (.environment e)
      { c with store := store, trace := c.trace ++ [.environment e] }

variable {c c' : Config M} {choice : Choice M} {s : M.Store} {P : Config M → Prop} {t : ℕ}
  {o : M.Oracle} {st : M.Stmt} {cond : Config M → ℕ → M.Stmt → Prop} {choices : List (Choice M)}
  {oracles : List M.Oracle} {r : Except M.Err M.Result}

/-- Every successful step is one of the five transitions. -/
theorem Transition.of_step (h : step c choice = some c') : Transition c choice c' := by
  cases choice with
  | start op =>
    cases h
    exact .start op
  | run t o =>
    simp only [step] at h
    split at h
    · next st next hcall =>
      split at h
      · next reply store hexec =>
        cases h
        exact .run hcall hexec
      · cases h
    · cases h
  | finish t =>
    simp only [step] at h
    split at h
    · next r hcall =>
      cases h
      exact .finish hcall
    · cases h
  | crash t =>
    simp only [step] at h
    split at h
    · next p hcall =>
      cases h
      exact .crash hcall
    · cases h
  | environment e =>
    simp only [step] at h
    split at h
    · next store henv =>
      cases h
      exact .environment henv
    · cases h

/-- Each of the five transitions is a successful step. -/
theorem Transition.to_step (h : Transition c choice c') : step c choice = some c' := by
  cases h with
  | start op => rfl
  | run hcall hexec => simp only [step, hcall, hexec]
  | finish hcall | crash hcall => simp only [step, hcall]
  | environment henv => simp only [step, henv]

/-! ## Reachability -/

/-- A condition on the steps of a run: the configuration before the step and the
choice taken there. -/
abbrev Guard (M : Machine) : Type := Config M → Choice M → Prop

/-- No condition. -/
def unguarded : Guard M := fun _ _ => True

/-- A condition on run steps: it holds of the configuration, the call, what the statement reads from
outside and the statement. -/
def onRuns (cond : Config M → ℕ → M.Oracle → M.Stmt → Prop) : Guard M
  | c, .run t o =>
    match c.calls t with
    | some (.call st _) => cond c t o st
    | _ => True
  | _, _ => True

/-- A condition on statements only. -/
def onStatements (cond : Config M → ℕ → M.Stmt → Prop) : Guard M :=
  onRuns fun c t _ st => cond c t st

/-- One guarded step. -/
def GuardedStep (guard : Guard M) (c c' : Config M) : Prop :=
  ∃ choice, guard c choice ∧ step c choice = some c'

/-- A run all of whose steps meet the guard. -/
def Run (guard : Guard M) : Config M → Config M → Prop :=
  Relation.ReflTransGen (GuardedStep guard)

/-- Reached from an initial store by steps that all meet the guard. -/
def Reachable (init : M.Store → Prop) (guard : Guard M) (c : Config M) : Prop :=
  ∃ s, init s ∧ Run guard (Config.initial s) c

variable {init : M.Store → Prop} {guard : Guard M}

/-- Initial configurations are reachable. -/
theorem Reachable.initial (hs : init s) : Reachable init guard (Config.initial s) :=
  ⟨s, hs, Relation.ReflTransGen.refl⟩

/-- Reachability is closed under runs. -/
theorem Reachable.run (hc : Reachable init guard c) (hrun : Run guard c c') :
    Reachable init guard c' := by
  obtain ⟨s, hs, h⟩ := hc
  exact ⟨s, hs, h.trans hrun⟩

/-- Reachability is closed under guarded steps. -/
theorem Reachable.step (hc : Reachable init guard c) (hguard : guard c choice)
    (hstep : Machine.step c choice = some c') : Reachable init guard c' :=
  hc.run (.single ⟨choice, hguard, hstep⟩)

theorem Reachable.transition (hc : Reachable init guard c) (hguard : guard c choice)
    (htrans : Transition c choice c') : Reachable init guard c' :=
  hc.step hguard htrans.to_step

/-- The invariant rule for the rest of a run. -/
@[elab_as_elim]
theorem Run.invariant (hrun : Run guard c c') (hc : Reachable init guard c) (hstart : P c)
    (hstep : ∀ c choice c', Reachable init guard c → P c → guard c choice →
      Transition c choice c' → P c') : P c' := by
  have hboth : Reachable init guard c' ∧ P c' := by
    induction hrun with
    | refl => exact ⟨hc, hstart⟩
    | tail _ hlast ih =>
      obtain ⟨choice, hguard, hchoice⟩ := hlast
      exact ⟨ih.1.step hguard hchoice, hstep _ _ _ ih.1 ih.2 hguard (.of_step hchoice)⟩
  exact hboth.2

/-- The invariant rule: what holds initially and is kept by every guarded step holds in every
reachable configuration. -/
@[elab_as_elim]
theorem Reachable.invariant (hc : Reachable init guard c)
    (hinit : ∀ s, init s → P (Config.initial s))
    (hstep : ∀ c choice c', Reachable init guard c → P c → guard c choice →
      Transition c choice c' → P c') : P c := by
  obtain ⟨s, hs, hrun⟩ := hc
  exact hrun.invariant (.initial hs) (hinit s hs) hstep

variable {guard' : Guard M}

/-- A weaker guard allows more runs. -/
theorem Run.mono (hrun : Run guard c c') (hguard : ∀ c choice, guard c choice → guard' c choice) :
    Run guard' c c' := by
  refine Relation.ReflTransGen.mono ?_ _ _ hrun
  rintro a b ⟨choice, hchoice, hstep⟩
  exact ⟨choice, hguard a choice hchoice, hstep⟩

theorem Reachable.mono (hc : Reachable init guard c)
    (hguard : ∀ c choice, guard c choice → guard' c choice) : Reachable init guard' c := by
  obtain ⟨s, hs, hrun⟩ := hc
  exact ⟨s, hs, hrun.mono hguard⟩

variable {next : Except M.Err (M.Ret st) → M.Prog}

/-- The condition on run steps holds at a run step. -/
theorem onRuns_run {cond : Config M → ℕ → M.Oracle → M.Stmt → Prop}
    (hguard : onRuns cond c (.run t o)) (hcall : c.calls t = some (.call st next)) :
    cond c t o st := by
  simpa only [onRuns, hcall] using hguard

/-- A statement condition holds at a run step. -/
theorem onStatements_run (hguard : onStatements cond c (.run t o))
    (hcall : c.calls t = some (.call st next)) : cond c t st :=
  onRuns_run hguard hcall

theorem onStatements_iff (hcall : c.calls t = some (.call st next)) :
    onStatements cond c (.run t o) ↔ cond c t st := by
  simp only [onStatements, onRuns, hcall]

/-- A weaker condition on statements is a weaker guard. -/
theorem onStatements_mono {cond' : Config M → ℕ → M.Stmt → Prop}
    (h : ∀ c t st, cond c t st → cond' c t st) (c : Config M) (choice : Choice M)
    (hguard : onStatements cond c choice) : onStatements cond' c choice := by
  cases choice with
  | run t o =>
    simp only [onStatements, onRuns] at hguard ⊢
    split
    · next st next hcall =>
      simp only [hcall] at hguard
      exact h c t st hguard
    · trivial
  | _ => trivial

/-- Run a list of choices in order, each of which has to meet the guard. -/
def runGuarded (guard : Guard M) [∀ c choice, Decidable (guard c choice)] :
    Config M → List (Choice M) → Option (Config M)
  | c, [] => some c
  | c, choice :: rest =>
    if guard c choice then (step c choice).bind fun c' => runGuarded guard c' rest else none

instance : ∀ (c : Config M) (choice : Choice M), Decidable (unguarded c choice) :=
  fun _ _ => inferInstanceAs (Decidable True)

instance {cond : Config M → ℕ → M.Oracle → M.Stmt → Prop} [∀ c t o st, Decidable (cond c t o st)] :
    ∀ (c : Config M) (choice : Choice M), Decidable (onRuns cond c choice)
  | c, .run t o =>
    match hcall : c.calls t with
    | some (.call st _) => decidable_of_iff (cond c t o st) (by simp [onRuns, hcall])
    | some (.done _) | none => .isTrue (by simp [onRuns, hcall])
  | _, .start _ | _, .finish _ | _, .crash _ | _, .environment _ => .isTrue trivial

instance {cond : Config M → ℕ → M.Stmt → Prop} [∀ c t st, Decidable (cond c t st)]
    (c : Config M) (choice : Choice M) : Decidable (onStatements cond c choice) :=
  inferInstanceAs (Decidable (onRuns (fun c t _ st => cond c t st) c choice))

/-- A schedule goes on after its first step. -/
theorem runGuarded_cons [∀ c choice, Decidable (guard c choice)] {rest : List (Choice M)}
    (hguard : guard c choice) (htrans : Transition c choice c') :
    runGuarded guard c (choice :: rest) = runGuarded guard c' rest := by
  rw [runGuarded, if_pos hguard, htrans.to_step, Option.bind_some]

/-- A schedule whose choices meet the guard is a run. -/
theorem Run.of_runGuarded [∀ c choice, Decidable (guard c choice)]
    (h : runGuarded guard c choices = some c') : Run guard c c' := by
  induction choices generalizing c with
  | nil =>
    cases h
    exact .refl
  | cons choice rest ih =>
    simp only [runGuarded] at h
    split at h
    · next hguard =>
      obtain ⟨d, hstep, hrest⟩ := Option.bind_eq_some_iff.mp h
      exact .head ⟨choice, hguard, hstep⟩ (ih hrest)
    · cases h

/-- What a schedule from an initial store shows is true of a reachable configuration. -/
theorem exists_reachable_of_any [∀ c choice, Decidable (guard c choice)] {test : Config M → Bool}
    (hs : init s) (h : (runGuarded guard (Config.initial s) choices).any test = true) :
    ∃ c, Reachable init guard c ∧ test c = true := by
  obtain ⟨c, hrun, htest⟩ := (Option.any_eq_true _ _).mp h
  exact ⟨c, ⟨s, hs, Run.of_runGuarded hrun⟩, htest⟩

/-! ## Calls that run alone -/

/-- The result of a program that runs alone and reads the given values from outside, one
for each statement. -/
def solo (t : ℕ) : List M.Oracle → M.Prog → M.Store → Option (Except M.Err M.Result × M.Store)
  | [], .done r, s => some (r, s)
  | o :: rest, .call st next, s =>
    (M.exec t o st s).bind fun reply => solo t rest (next reply.1) reply.2
  | _, _, _ => none

/-- The schedule of a call that runs alone. -/
def alone (c : Config M) (op : M.Op) (oracles : List M.Oracle) : List (Choice M) :=
  .start op :: (oracles.map (.run c.next) ++ [.finish c.next])

theorem exists_finish_of_solo {p : M.Prog} (hcall : c.calls t = some p)
    (h : solo t oracles p c.store = some (r, s)) :
    ∃ c', runGuarded unguarded c (oracles.map (.run t) ++ [.finish t]) = some c' ∧
      c'.store = s ∧ .returned t r ∈ c'.trace := by
  induction oracles generalizing c p with
  | nil =>
    cases p with
    | done r' =>
      cases h
      exact ⟨_, runGuarded_cons trivial (.finish hcall), rfl, by simp⟩
    | call st next => cases h
  | cons o rest ih =>
    cases p with
    | done r' => cases h
    | call st next =>
      obtain ⟨⟨reply, s'⟩, hexec, hrest⟩ := Option.bind_eq_some_iff.mp h
      have hstep : Transition c (.run t o) _ := .run hcall hexec
      rw [List.map_cons, List.cons_append, runGuarded_cons trivial hstep]
      exact ih (Function.update_self ..) hrest

/-- The result of a program that runs alone is that of its call. -/
theorem exists_run_of_solo {op : M.Op}
    (h : solo c.next oracles (M.program op) c.store = some (r, s)) :
    ∃ c', runGuarded unguarded c (alone c op oracles) = some c' ∧ c'.store = s ∧
      .returned c.next r ∈ c'.trace := by
  rw [alone, runGuarded_cons trivial (.start op)]
  exact exists_finish_of_solo (Function.update_self ..) h

end Machine

end Concurrent
