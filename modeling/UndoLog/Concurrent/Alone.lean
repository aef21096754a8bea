import UndoLog.Concurrent.History

/-!
# Programs that run alone

A program that nobody interrupts runs from a store to a result and a store. What its
statements read from outside stays open, so it may end in several ways. The rules take a
program apart into its statements.
-/

namespace Concurrent.Machine

variable {M : Machine} {α β : Type} {t : ℕ} {s s' : M.Store}

/-- Run alone as call `t` from the store `s`, the program can end with the result `r` in the
store `s'`. -/
inductive Ends (t : ℕ) :
    Program M.Stmt M.Ret M.Err α → M.Store → Except M.Err α → M.Store → Prop
  | done (r : Except M.Err α) (s : M.Store) : Ends t (.done r) s r s
  | call {st : M.Stmt} {next : Except M.Err (M.Ret st) → Program M.Stmt M.Ret M.Err α}
      {o : M.Oracle} {s s₁ s' : M.Store} {reply : Except M.Err (M.Ret st)} {r : Except M.Err α}
      (hexec : M.exec t o st s = some (reply, s₁)) (hnext : Ends t (next reply) s₁ r s') :
      Ends t (.call st next) s r s'

/-- A program that has ended is where it is. -/
theorem ends_done {r r' : Except M.Err α} : Ends t (.done r) s r' s' ↔ r' = r ∧ s' = s := by
  constructor
  · intro h
    cases h
    exact ⟨rfl, rfl⟩
  · rintro ⟨rfl, rfl⟩
    exact .done _ _

/-- A single statement ends as it is executed. -/
theorem ends_stmt {st : M.Stmt} {r : Except M.Err (M.Ret st)} :
    Ends t (Program.stmt st) s r s' ↔ ∃ o, M.exec t o st s = some (r, s') := by
  constructor
  · intro h
    cases h with
    | call hexec hnext =>
      obtain ⟨rfl, rfl⟩ := ends_done.mp hnext
      exact ⟨_, hexec⟩
  · rintro ⟨o, hexec⟩
    exact .call hexec (.done _ _)

variable {p : Program M.Stmt M.Ret M.Err α} {f : α → Program M.Stmt M.Ret M.Err β}

/-- A sequence of programs goes on after its first part. -/
theorem Ends.bind {a : α} {s₁ : M.Store} {r : Except M.Err β} (h : Ends t p s (.ok a) s₁)
    (hrest : Ends t (f a) s₁ r s') : Ends t (p >>= f) s r s' := by
  generalize hr : (Except.ok a : Except M.Err α) = result at h
  induction h with
  | done result s =>
    subst hr
    exact hrest
  | call hexec hnext ih => exact .call hexec (ih hrest hr)

/-- A sequence of programs returns a value when both parts do. -/
theorem ends_bind_ok {b : β} : Ends t (p >>= f) s (.ok b) s' ↔
      ∃ a s₁, Ends t p s (.ok a) s₁ ∧ Ends t (f a) s₁ (.ok b) s' := by
  refine ⟨fun h => ?_, fun ⟨a, s₁, hfirst, hrest⟩ => hfirst.bind hrest⟩
  induction p generalizing s with
  | done r =>
    cases r with
    | error e => cases (ends_done.mp h).1
    | ok a => exact ⟨a, s, .done _ _, h⟩
  | call st next ih =>
    cases h with
    | call hexec hnext =>
      obtain ⟨a, s₁, hfirst, hrest⟩ := ih _ hnext
      exact ⟨a, s₁, .call hexec hfirst, hrest⟩

/-- The ends of the program of a call are those it reaches with some values from outside. -/
theorem ends_iff_solo {p : M.Prog} {r : Except M.Err M.Result} :
    Ends t p s r s' ↔ ∃ oracles, solo t oracles p s = some (r, s') := by
  constructor
  · intro h
    induction h with
    | done r s => exact ⟨[], rfl⟩
    | @call st next o s s₁ s' reply r hexec hnext ih =>
      obtain ⟨rest, hrest⟩ := ih
      refine ⟨o :: rest, ?_⟩
      rw [solo, hexec]
      exact hrest
  · rintro ⟨oracles, h⟩
    induction oracles generalizing p s with
    | nil =>
      cases p with
      | done r' =>
        cases h
        exact .done _ _
      | call st next => cases h
    | cons o rest ih =>
      cases p with
      | done r' => cases h
      | call st next =>
        obtain ⟨⟨reply, s₁⟩, hexec, hrest⟩ := Option.bind_eq_some_iff.mp h
        exact .call hexec (ih hrest)

end Concurrent.Machine
