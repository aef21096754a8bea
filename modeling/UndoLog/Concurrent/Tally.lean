import UndoLog.Concurrent.History

/-!
# Counting calls by their history

A counter of the shared store often counts the calls that are in some phase. The number of
calls whose history has a property changes only when a call runs a statement, by what the
statement does to that one call.
-/

namespace Concurrent.Machine

variable {M : Machine}

/-- The number of started calls whose history has a property. -/
def tally (P : List (Ran M.Stmt M.Ret M.Err) → Bool) (c : Config M) : ℕ :=
  (List.range c.next).countP fun t => P (ranBy t c.trace)

/-- Changing a property of numbers at one of them changes the count by that one. -/
theorem countP_range_update {n t : ℕ} (ht : t < n) {f g : ℕ → Bool} (h : ∀ u, u ≠ t → g u = f u) :
    (List.range n).countP g + (f t).toNat = (List.range n).countP f + (g t).toNat := by
  induction n with
  | zero => omega
  | succ n ih =>
    rw [List.range_succ, List.countP_append, List.countP_append, List.countP_singleton,
      List.countP_singleton]
    by_cases heq : t = n
    · subst heq
      have hbelow : (List.range t).countP g = (List.range t).countP f := by
        refine List.countP_congr fun u hu => ?_
        rw [h u (Nat.ne_of_lt (List.mem_range.mp hu))]
      rw [hbelow]
      cases f t <;> cases g t <;> simp
    · have hlast := h n (Ne.symm heq)
      have hbelow := ih (by omega)
      rw [hlast]
      omega

variable {P : List (Ran M.Stmt M.Ret M.Err) → Bool} {c c' : Config M}

/-- No call that was not started has a history. -/
theorem Coherent.ranBy_next (h : Coherent c) : ranBy c.next c.trace = [] := by
  refine List.eq_nil_iff_forall_not_mem.mpr ?_
  rintro ⟨st, reply⟩ hmem
  exact absurd (h.fresh _ (mem_ranBy.mp hmem) _ rfl) (Nat.lt_irrefl _)

/-- A step that runs no statement leaves the count alone. -/
theorem Transition.tally_quiet {choice : Choice M} (htrans : Transition c choice c')
    (hc : Coherent c) (hP : P [] = false) (hrun : ∀ t o, choice ≠ .run t o) :
    tally P c' = tally P c := by
  have hquiet : ∀ {d : Config M} {event : M.Event}, d.next = c.next →
      d.trace = c.trace ++ [event] → (∀ u st reply, event ≠ .ran u st reply) →
      tally P d = tally P c := by
    intro d event hnext htrace hevent
    unfold tally
    rw [hnext, htrace]
    exact List.countP_congr fun u _ => by rw [ranBy_append_of_ne c.trace (hevent u)]
  cases htrans with
  | start op =>
    have hkeep : ∀ u, ranBy u (c.trace ++ [Event.started c.next op]) = ranBy u c.trace :=
      fun u => ranBy_append_of_ne c.trace (by simp)
    unfold tally
    simp only [hkeep]
    rw [List.range_succ, List.countP_append, List.countP_singleton, hc.ranBy_next, hP]
    rfl
  | run hcall hexec => exact absurd rfl (hrun _ _)
  | finish | crash | environment => exact hquiet rfl rfl (by simp)

/-- A statement changes the count by what it does to its call. -/
theorem tally_ran (hc : Coherent c) {t : ℕ} {p : M.Prog} (hcall : c.calls t = some p)
    {st : M.Stmt} {reply : Except M.Err (M.Ret st)} (hnext : c'.next = c.next)
    (htrace : c'.trace = c.trace ++ [.ran t st reply]) : tally P c' + (P (ranBy t c.trace)).toNat =
      tally P c + (P (ranBy t c.trace ++ [⟨st, reply⟩])).toNat := by
  have hcount := countP_range_update (hc.running t p hcall).1 (f := fun u => P (ranBy u c.trace))
    (g := fun u => P (ranBy u (c.trace ++ [.ran t st reply]))) (fun u hu => by
      rw [ranBy_append_of_ne c.trace]
      rintro st' reply' hevent
      injection hevent with htu
      exact hu htu.symm)
  rw [ranBy_ran_self] at hcount
  unfold tally
  rw [hnext, htrace]
  exact hcount

end Concurrent.Machine
