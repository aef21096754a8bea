import UndoLog.Concurrent.History

/-!
# One call among others

While a call runs, others change the store between its statements. A program ensures a
postcondition when, however the store changes within a relation, the rely, every statement
can be executed and the rest ensures the postcondition.
-/

namespace Concurrent.Machine

variable {M : Machine} {α β : Type} {rely : M.Store → M.Store → Prop} {allowed : M.Oracle → Prop}
  {t : ℕ} {s s' : M.Store}

/-- Run as call `t` from the store `s`, the program is never stuck and ends only as the
postcondition says. -/
def Ensures (rely : M.Store → M.Store → Prop) (allowed : M.Oracle → Prop) (t : ℕ)
    (post : Except M.Err α → M.Store → Prop) : Program M.Stmt M.Ret M.Err α → M.Store → Prop
  | .done r, s => ∀ s', rely s s' → post r s'
  | .call st next, s => ∀ s₁, rely s s₁ → (∃ o, allowed o ∧ (M.exec t o st s₁).isSome = true) ∧
      ∀ o, allowed o → ∀ reply s₂, M.exec t o st s₁ = some (reply, s₂) →
        Ensures rely allowed t post (next reply) s₂

variable {post : Except M.Err α → M.Store → Prop} {p : Program M.Stmt M.Ret M.Err α} {c : Config M}

/-- A weaker postcondition is ensured as well. -/
theorem Ensures.mono {post' : Except M.Err α → M.Store → Prop} (h : Ensures rely allowed t post p s)
    (hpost : ∀ r s, post r s → post' r s) : Ensures rely allowed t post' p s := by
  induction p generalizing s with
  | done r => exact fun s' hrely => hpost r s' (h s' hrely)
  | call st next ih =>
    intro s₁ hrely
    obtain ⟨hcan, hnext⟩ := h s₁ hrely
    exact ⟨hcan, fun o ho reply s₂ hexec => ih reply (hnext o ho reply s₂ hexec)⟩

/-- What others do in between changes nothing. -/
theorem Ensures.amid
    (h : Ensures rely allowed t post p s) (htrans : ∀ {x y z}, rely x y → rely y z → rely x z)
    (hrely : rely s s') : Ensures rely allowed t post p s' := by
  cases p with
  | done | call => exact fun s₁ hlater => h s₁ (htrans hrely hlater)

/-- What the first part of a sequence has to ensure for the whole of it. -/
def Resumes (rely : M.Store → M.Store → Prop) (allowed : M.Oracle → Prop) (t : ℕ)
    (post : Except M.Err β → M.Store → Prop) (f : α → Program M.Stmt M.Ret M.Err β) :
    Except M.Err α → M.Store → Prop
  | .ok a, s => Ensures rely allowed t post (f a) s
  | .error e, s => ∀ s', rely s s' → post (.error e) s'

/-- A sequence of programs goes on after its first part, or ends where that fails. -/
theorem Ensures.bind {post : Except M.Err β → M.Store → Prop} {f : α → Program M.Stmt M.Ret M.Err β}
    (hrefl : ∀ x, rely x x) (h : Ensures rely allowed t (Resumes rely allowed t post f) p s) :
    Ensures rely allowed t post (p >>= f) s := by
  induction p generalizing s with
  | done r =>
    cases r with
    | ok | error => exact h s (hrefl s)
  | call st next ih =>
    intro s₁ hrely
    obtain ⟨hcan, hnext⟩ := h s₁ hrely
    exact ⟨hcan, fun o ho reply s₂ hexec => ih reply (hnext o ho reply s₂ hexec)⟩

/-- One statement and then the rest. -/
theorem ensures_stmt_bind {st : M.Stmt} {f : M.Ret st → Program M.Stmt M.Ret M.Err α}
    (hcan : ∀ s₁, rely s s₁ → ∃ o, allowed o ∧ (M.exec t o st s₁).isSome = true)
    (hok : ∀ s₁, rely s s₁ → ∀ o, allowed o → ∀ a s₂, M.exec t o st s₁ = some (.ok a, s₂) →
      Ensures rely allowed t post (f a) s₂)
    (herror : ∀ s₁, rely s s₁ → ∀ o, allowed o → ∀ e s₂, M.exec t o st s₁ = some (.error e, s₂) →
      ∀ s', rely s₂ s' → post (.error e) s') :
    Ensures rely allowed t post (Program.stmt st >>= f) s := by
  intro s₁ hrely
  refine ⟨hcan s₁ hrely, fun o ho reply s₂ hexec => ?_⟩
  cases reply with
  | ok a => exact hok s₁ hrely o ho a s₂ hexec
  | error e => exact herror s₁ hrely o ho e s₂ hexec

/-- A program that ensures something ends, when it runs alone. -/
theorem Ensures.exists_solo {post : Except M.Err M.Result → M.Store → Prop} {p : M.Prog}
    (h : Ensures rely allowed t post p s) (hrefl : ∀ x, rely x x) :
    ∃ oracles r s', (∀ o ∈ oracles, allowed o) ∧ solo t oracles p s = some (r, s') ∧ post r s' := by
  induction p generalizing s with
  | done r => exact ⟨[], r, s, by simp, rfl, h s (hrefl s)⟩
  | call st next ih =>
    obtain ⟨⟨o, ho, hsome⟩, hnext⟩ := h s (hrefl s)
    obtain ⟨⟨reply, s₂⟩, hexec⟩ := Option.isSome_iff_exists.mp hsome
    obtain ⟨oracles, r, s', hall, hsolo, hpost⟩ := ih reply (hnext o ho reply s₂ hexec)
    refine ⟨o :: oracles, r, s', List.forall_mem_cons.mpr ⟨ho, hall⟩, ?_, hpost⟩
    rw [solo, hexec]
    exact hsolo

variable {guard : Guard M} {oracles : List M.Oracle} {r : Except M.Err M.Result}

/-- A call that runs alone can do so within a guard that allows its own steps. -/
theorem exists_run_within {p : M.Prog} (hcall : c.calls t = some p)
    (h : solo t oracles p c.store = some (r, s))
    (hrun : ∀ d : Config M, c.trace ⊆ d.trace → ∀ o ∈ oracles, guard d (.run t o))
    (hfinish : ∀ d : Config M, guard d (.finish t)) :
    ∃ d ran, Run guard c d ∧ d.store = s ∧ d.next = c.next ∧
      d.calls = Function.update c.calls t none ∧ d.trace = c.trace ++ ran ++ [.returned t r] ∧
      ∀ event ∈ ran, ∃ st reply, event = .ran t st reply := by
  induction oracles generalizing c p with
  | nil =>
    cases p with
    | done r' =>
      cases h
      have hstep : Transition c (.finish t) _ := .finish hcall
      exact ⟨_, [], .single ⟨_, hfinish c, hstep.to_step⟩, rfl, rfl, rfl, by simp, by simp⟩
    | call st next => cases h
  | cons o rest ih =>
    cases p with
    | done r' => cases h
    | call st next =>
      obtain ⟨⟨reply, s'⟩, hexec, hrest⟩ := Option.bind_eq_some_iff.mp h
      have hstep : Transition c (.run t o) _ := .run hcall hexec
      have hlater := fun d (hsub : c.trace ++ [.ran t st reply] ⊆ d.trace) o' ho' =>
        hrun d (List.Subset.trans (List.subset_append_left _ _) hsub) o'
          (List.mem_cons_of_mem _ ho')
      obtain ⟨d, ran, hd, hstore, hnext, hcalls, htrace, hran⟩ := ih (c := { c with
        store := s'
        calls := Function.update c.calls t (some (next reply))
        trace := c.trace ++ [.ran t st reply] }) (Function.update_self ..) hrest hlater
      have hfirst := hrun c (List.Subset.refl _) o List.mem_cons_self
      refine ⟨d, .ran t st reply :: ran, .head ⟨_, hfirst, hstep.to_step⟩ hd, hstore, hnext,
        ?_, ?_, ?_⟩
      · rw [hcalls]
        exact Function.update_idem ..
      · rw [htrace]
        simp
      · exact List.forall_mem_cons.mpr ⟨⟨st, reply, rfl⟩, hran⟩

/-- A call that is made and runs alone. -/
theorem exists_call_within {op : M.Op}
    (h : solo c.next oracles (M.program op) c.store = some (r, s)) (hstart : guard c (.start op))
    (hrun : ∀ d : Config M, .started c.next op ∈ d.trace →
      ∀ o ∈ oracles, guard d (.run c.next o)) (hfinish : ∀ d : Config M, guard d (.finish c.next)) :
    ∃ d ran, Run guard c d ∧ d.store = s ∧ d.next = c.next + 1 ∧
      d.calls = Function.update c.calls c.next none ∧
      d.trace = c.trace ++ .started c.next op :: (ran ++ [.returned c.next r]) ∧
      ∀ event ∈ ran, ∃ st reply, event = .ran c.next st reply := by
  have hfirst : Transition c (.start op) _ := .start op
  obtain ⟨d, ran, hd, hstore, hnext, hcalls, htrace, hran⟩ := exists_run_within (c := { c with
    calls := Function.update c.calls c.next (some (M.program op))
    next := c.next + 1
    trace := c.trace ++ [.started c.next op] }) (Function.update_self ..) h
    (fun d hsub => hrun d (hsub List.mem_concat_self)) hfinish
  refine ⟨d, ran, .head ⟨_, hstart, hfirst.to_step⟩ hd, hstore, hnext, ?_, ?_, hran⟩
  · rw [hcalls]
    exact Function.update_idem ..
  · rw [htrace]
    simp

/-- A call that ensures something while others stay within its rely still does after each step, or
has returned as the postcondition says. -/
theorem Ensures.transition {post : Except M.Err M.Result → M.Store → Prop} {p : M.Prog}
    {c' : Config M} {choice : Choice M} (h : Ensures rely allowed t post p c.store)
    (hcall : c.calls t = some p) (htrans : Transition c choice c') (hfresh : t < c.next)
    (hrefl : ∀ x, rely x x) (hcompose : ∀ {x y z}, rely x y → rely y z → rely x z)
    (hown : ∀ o, choice = .run t o → allowed o) (hcrash : choice ≠ .crash t)
    (hothers : (∀ o, choice ≠ .run t o) → rely c.store c'.store) :
    (∃ p', choice ≠ .finish t ∧ c'.calls t = some p' ∧ Ensures rely allowed t post p' c'.store) ∨
      ∃ r, choice = .finish t ∧ c'.trace = c.trace ++ [.returned t r] ∧ c'.calls t = none ∧
        post r c'.store := by
  cases htrans with
  | start op =>
    have hne : t ≠ c.next := by omega
    exact .inl ⟨p, by rintro ⟨⟩, (Function.update_of_ne hne ..).trans hcall, h⟩
  | @run u o st next reply store hcall' hexec =>
    by_cases hu : t = u
    · subst hu
      cases hcall.symm.trans hcall'
      have hallowed := hown o rfl
      refine .inl ⟨next reply, by rintro ⟨⟩, Function.update_self .., ?_⟩
      exact (h c.store (hrefl _)).2 o hallowed reply store hexec
    · have hrely := hothers fun o' heq => by
        cases heq
        exact hu rfl
      refine .inl ⟨p, by rintro ⟨⟩, (Function.update_of_ne hu ..).trans hcall, ?_⟩
      exact h.amid hcompose hrely
  | @finish u r hcall' =>
    by_cases hu : t = u
    · subst hu
      cases hcall.symm.trans hcall'
      exact .inr ⟨r, rfl, rfl, Function.update_self .., h c.store (hrefl _)⟩
    · refine .inl ⟨p, ?_, (Function.update_of_ne hu ..).trans hcall, h⟩
      rintro ⟨⟩
      exact hu rfl
  | @crash u p' hcall' =>
    have hu : t ≠ u := by
      rintro rfl
      exact hcrash rfl
    have hrely := hothers (by rintro o ⟨⟩)
    refine .inl ⟨p, by rintro ⟨⟩, (Function.update_of_ne hu ..).trans hcall, ?_⟩
    exact h.amid hcompose hrely
  | environment henv =>
    have hrely := hothers (by rintro o ⟨⟩)
    exact .inl ⟨p, by rintro ⟨⟩, hcall, h.amid hcompose hrely⟩

end Concurrent.Machine
