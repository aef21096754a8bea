import UndoLog.Concurrent.Machine

/-!
# The history of one call inside an interleaved run

In any interleaving the statements of one call form a path through its program. A contract
that was checked on the program text therefore holds of every statement when it runs and of
every result that is returned.
-/

namespace Concurrent.Machine

variable {M : Machine} {init : M.Store → Prop} {guard : Guard M}

/-- The statements that call `t` has run, with their replies, oldest first. -/
def ranBy (t : ℕ) (trace : List M.Event) : List (Ran M.Stmt M.Ret M.Err) :=
  trace.filterMap fun
    | .ran u st reply => if u = t then some ⟨st, reply⟩ else none
    | _ => none

/-- The call an event belongs to. -/
def Event.call? : M.Event → Option ℕ
  | .started t _ | .ran t _ _ | .returned t _ | .crashed t => some t
  | .environment _ => none

variable {c c' final : Config M} {t : ℕ} {choice : Choice M} {event : M.Event} {op : M.Op}
    {st : M.Stmt} {reply : Except M.Err (M.Ret st)} {r : Except M.Err M.Result}
    {before : List M.Event}

/-- Membership in the history of a call is membership of its event in the trace. -/
@[simp] theorem mem_ranBy {trace : List M.Event} :
    (⟨st, reply⟩ : Ran M.Stmt M.Ret M.Err) ∈ ranBy t trace ↔ .ran t st reply ∈ trace := by
  simp only [ranBy, List.mem_filterMap]
  constructor
  · rintro ⟨event, hmem, heq⟩
    split at heq
    · next u st' reply' =>
      split at heq
      · next hu =>
        subst hu
        cases heq
        exact hmem
      · cases heq
    · cases heq
  · intro hmem
    exact ⟨_, hmem, by simp⟩

/-- A call's own statement extends its history. -/
theorem ranBy_ran_self (t : ℕ) (trace : List M.Event) (st : M.Stmt)
    (reply : Except M.Err (M.Ret st)) :
    ranBy t (trace ++ [.ran t st reply]) = ranBy t trace ++ [⟨st, reply⟩] := by
  simp [ranBy]

/-- An event of another kind or of another call leaves the history alone. -/
theorem ranBy_append_of_ne (trace : List M.Event) (h : ∀ st reply, event ≠ .ran t st reply) :
    ranBy t (trace ++ [event]) = ranBy t trace := by
  cases event with
  | ran u st reply =>
    by_cases hu : u = t
    · subst hu
      exact absurd rfl (h st reply)
    · simp [ranBy, hu]
  | started | returned | crashed | environment => simp [ranBy]

/-- A statement in the history of a call splits the trace at its event. -/
theorem ranBy_split {trace : List M.Event} {before : List (Ran M.Stmt M.Ret M.Err)}
    (h : before ++ [⟨st, reply⟩] <+: ranBy t trace) :
    ∃ earlier later, trace = earlier ++ .ran t st reply :: later ∧ ranBy t earlier = before := by
  obtain ⟨rest, hrest⟩ := h
  rw [List.append_assoc] at hrest
  obtain ⟨earlier, later, rfl, hearlier, hlater⟩ := List.filterMap_eq_append_iff.mp hrest.symm
  obtain ⟨skipped, event, later', rfl, hskipped, hevent, -⟩ :=
    List.filterMap_eq_cons_iff.mp hlater
  have heq : event = .ran t st reply := by
    split at hevent
    · next u st' reply' =>
      split at hevent
      · next hu =>
        subst hu
        cases hevent
        rfl
      · cases hevent
    · cases hevent
  refine ⟨earlier ++ skipped, later', by simp [heq], ?_⟩
  have hnone : ranBy t skipped = [] := List.filterMap_eq_nil_iff.mpr hskipped
  rw [ranBy, List.filterMap_append]
  exact (congrArg₂ _ hearlier hnone).trans (List.append_nil before)

theorem ranBy_append (t : ℕ) (trace trace' : List M.Event) :
    ranBy t (trace ++ trace') = ranBy t trace ++ ranBy t trace' :=
  List.filterMap_append

/-- The last two statements of a call split the trace at their events. -/
theorem ranBy_split_last {trace : List M.Event} {before : List (Ran M.Stmt M.Ret M.Err)}
    {st₁ st₂ : M.Stmt} {reply₁ : Except M.Err (M.Ret st₁)} {reply₂ : Except M.Err (M.Ret st₂)}
    (h : ranBy t trace = before ++ [⟨st₁, reply₁⟩, ⟨st₂, reply₂⟩]) : ∃ earlier between later,
      trace = earlier ++ .ran t st₁ reply₁ :: between ++ .ran t st₂ reply₂ :: later ∧
      ranBy t between = [] ∧ ranBy t later = [] := by
  have hlast : (before ++ [⟨st₁, reply₁⟩]) ++ [⟨st₂, reply₂⟩] <+: ranBy t trace :=
    ⟨[], by simp [h]⟩
  obtain ⟨middle, later, htrace, hmiddle⟩ := ranBy_split hlast
  have hfirst : before ++ [⟨st₁, reply₁⟩] <+: ranBy t middle := hmiddle ▸ List.prefix_rfl
  obtain ⟨earlier, between, hbetween, hearlier⟩ := ranBy_split hfirst
  have hran : ∀ (st : M.Stmt) (reply : Except M.Err (M.Ret st)) (rest : List M.Event),
      ranBy t (.ran t st reply :: rest) = ⟨st, reply⟩ :: ranBy t rest := by
    intro st reply rest
    simp [ranBy]
  refine ⟨earlier, between, later, by rw [htrace, hbetween], ?_, ?_⟩
  · rw [hbetween, ranBy_append, hearlier, hran] at hmiddle
    simpa using hmiddle
  · rw [htrace, ranBy_append, hmiddle, hran] at h
    simpa using h

/-- The history of a call follows its program up to `p`. -/
def Follows (trace : List M.Event) (t : ℕ) (p : M.Prog) : Prop :=
  ∃ op, .started t op ∈ trace ∧ Program.Path (M.program op) (ranBy t trace) p

/-- A call's history keeps following its program while other events happen. -/
theorem Follows.append {trace : List M.Event} {p : M.Prog} (h : Follows trace t p)
    (hne : ∀ st reply, event ≠ .ran t st reply) : Follows (trace ++ [event]) t p := by
  obtain ⟨op, hstart, hpath⟩ := h
  exact ⟨op, List.mem_append_left _ hstart, by rwa [ranBy_append_of_ne trace hne]⟩

/-- What the trace and the running calls of a configuration have to do with each
other. -/
structure Coherent (c : Config M) : Prop where
  /-- Call numbers that are still to be given out occur nowhere. -/
  fresh : ∀ event ∈ c.trace, ∀ t, event.call? = some t → t < c.next
  /-- Only started calls run. -/
  running : ∀ t p, c.calls t = some p → t < c.next ∧ Follows c.trace t p
  /-- Every call that was started has followed its program so far. -/
  following : ∀ t op, .started t op ∈ c.trace →
    ∃ p, Program.Path (M.program op) (ranBy t c.trace) p
  /-- Call numbers are given out once. -/
  started_unique : ∀ t op op', .started t op ∈ c.trace → .started t op' ∈ c.trace → op = op'
  /-- Statements are run by started calls. -/
  ran_started : ∀ t st reply, .ran t st reply ∈ c.trace → ∃ op, .started t op ∈ c.trace
  /-- A returned call is over, and its program ended with the result. -/
  returned : ∀ t r, .returned t r ∈ c.trace →
    c.calls t = none ∧ Follows c.trace t (.done r)

/-- An initial configuration is coherent. -/
theorem Coherent.initial (s : M.Store) : Coherent (Config.initial s) where
  fresh := by simp [Config.initial]
  running := by simp [Config.initial]
  following := by simp [Config.initial]
  started_unique := by simp [Config.initial]
  ran_started := by simp [Config.initial]
  returned := by simp [Config.initial]

/-- Starting a call keeps a configuration coherent. -/
theorem Coherent.start (h : Coherent c) (op : M.Op) : Coherent { c with
      calls := Function.update c.calls c.next (some (M.program op))
      next := c.next + 1
      trace := c.trace ++ [.started c.next op] } := by
  have hnew : ranBy c.next c.trace = [] := by
    refine List.eq_nil_iff_forall_not_mem.mpr ?_
    rintro ⟨st, reply⟩ hmem
    exact absurd (h.fresh _ (mem_ranBy.mp hmem) _ rfl) (Nat.lt_irrefl _)
  have hkeep : ∀ t, ranBy t (c.trace ++ [Event.started c.next op]) = ranBy t c.trace :=
    fun t => ranBy_append_of_ne c.trace (by simp)
  have hold : ∀ {t op'}, .started t op' ∈ c.trace → t ≠ c.next := by
    rintro t op' hmem rfl
    exact absurd (h.fresh _ hmem _ rfl) (Nat.lt_irrefl _)
  constructor
  · intro event hmem t ht
    rcases List.mem_snoc.mp hmem with hmem | rfl
    · exact Nat.lt_succ_of_lt (h.fresh event hmem t ht)
    · cases ht
      exact Nat.lt_succ_self _
  · intro t p ht
    by_cases hnext : t = c.next
    · subst hnext
      obtain rfl : M.program op = p := by simpa using ht
      exact ⟨Nat.lt_succ_self _, op, by simp, by rw [hkeep, hnew]; exact .nil⟩
    · obtain ⟨hlt, hfollows⟩ := h.running t p (by simpa [hnext] using ht)
      exact ⟨Nat.lt_succ_of_lt hlt, hfollows.append (by simp)⟩
  · intro t op' hmem
    rw [hkeep]
    rcases List.mem_append.mp hmem with hmem | hmem
    · exact h.following t op' hmem
    · obtain ⟨rfl, rfl⟩ : t = c.next ∧ op' = op := by simpa using hmem
      exact ⟨_, by rw [hnew]; exact .nil⟩
  · intro t op₁ op₂ h₁ h₂
    rcases List.mem_append.mp h₁ with h₁ | h₁ <;> rcases List.mem_append.mp h₂ with h₂ | h₂
    · exact h.started_unique t op₁ op₂ h₁ h₂
    · exact absurd (by simpa using h₂ : t = c.next ∧ op₂ = op).1 (hold h₁)
    · exact absurd (by simpa using h₁ : t = c.next ∧ op₁ = op).1 (hold h₂)
    · simp only [List.mem_singleton, Event.started.injEq] at h₁ h₂
      exact h₁.2.trans h₂.2.symm
  · intro t st reply hmem
    obtain ⟨op', hop'⟩ := h.ran_started t st reply (by simpa using hmem)
    exact ⟨op', List.mem_append_left _ hop'⟩
  · intro t r hmem
    have hmem : .returned t r ∈ c.trace := by simpa using hmem
    obtain ⟨hcall, hfollows⟩ := h.returned t r hmem
    have hne : t ≠ c.next := Nat.ne_of_lt (h.fresh _ hmem _ rfl)
    exact ⟨by simpa [hne] using hcall, hfollows.append (by simp)⟩

variable {next : Except M.Err (M.Ret st) → M.Prog} {event' : M.Event} {choice' : Choice M}

/-- Running a statement keeps a configuration coherent. -/
theorem Coherent.run (h : Coherent c) (reply : Except M.Err (M.Ret st)) (store : M.Store)
    (hcall : c.calls t = some (.call st next)) : Coherent { c with
      store := store
      calls := Function.update c.calls t (some (next reply))
      trace := c.trace ++ [.ran t st reply] } := by
  obtain ⟨hlt, op, hstart, hpath⟩ := h.running t _ hcall
  have hself : Program.Path (M.program op) (ranBy t (c.trace ++ [.ran t st reply]))
      (next reply) := by
    rw [ranBy_ran_self]
    exact .snoc reply hpath
  have hother : ∀ {u}, u ≠ t → ∀ st' reply', Event.ran t st reply ≠ .ran u st' reply' := by
    rintro u hu st' reply' heq
    injection heq with htu
    exact hu htu.symm
  constructor
  · intro event hmem u hu
    rcases List.mem_snoc.mp hmem with hmem | rfl
    · exact h.fresh event hmem u hu
    · cases hu
      exact hlt
  · intro u p hu
    by_cases hut : u = t
    · subst hut
      obtain rfl : next reply = p := by simpa using hu
      exact ⟨hlt, op, List.mem_append_left _ hstart, hself⟩
    · obtain ⟨hlt', hfollows⟩ := h.running u p (by simpa [hut] using hu)
      exact ⟨hlt', hfollows.append (hother hut)⟩
  · intro u op' hmem
    have hold : .started u op' ∈ c.trace := by simpa using hmem
    by_cases hut : u = t
    · subst hut
      obtain rfl := h.started_unique u op op' hstart hold
      exact ⟨_, hself⟩
    · rw [ranBy_append_of_ne c.trace (hother hut)]
      exact h.following u op' hold
  · intro u op₁ op₂ h₁ h₂
    exact h.started_unique u op₁ op₂ (by simpa using h₁) (by simpa using h₂)
  · intro u st' reply' hmem
    rcases List.mem_append.mp hmem with hmem | hmem
    · obtain ⟨op', hop'⟩ := h.ran_started u st' reply' hmem
      exact ⟨op', List.mem_append_left _ hop'⟩
    · have heq := List.mem_singleton.mp hmem
      injection heq with hut
      subst hut
      exact ⟨op, List.mem_append_left _ hstart⟩
  · intro u r hmem
    obtain ⟨hnone, hfollows⟩ := h.returned u r (by simpa using hmem)
    have hut : u ≠ t := by
      rintro rfl
      simp [hnone] at hcall
    exact ⟨by simpa [hut] using hnone, hfollows.append (hother hut)⟩

/-- An event that neither starts a call nor runs a statement keeps a configuration coherent. -/
theorem Coherent.quiet (h : Coherent c) {calls : ℕ → Option M.Prog} (store : M.Store)
    (hran : ∀ u st reply, event ≠ .ran u st reply) (hstart : ∀ u op, event ≠ .started u op)
    (hcall : ∀ u, event.call? = some u → ∃ p, c.calls u = some p)
    (hcalls : ∀ u, calls u = c.calls u ∨ calls u = none)
    (hreturn : ∀ u r, event = .returned u r → calls u = none ∧ c.calls u = some (.done r)) :
    Coherent { c with store := store, calls := calls, trace := c.trace ++ [event] } := by
  have hkeep : ∀ u, ranBy u (c.trace ++ [event]) = ranBy u c.trace :=
    fun u => ranBy_append_of_ne c.trace (hran u)
  have hold : ∀ {u op}, .started u op ∈ c.trace ++ [event] → .started u op ∈ c.trace := by
    intro u op hmem
    rcases List.mem_append.mp hmem with hmem | hmem
    · exact hmem
    · exact absurd (List.mem_singleton.mp hmem).symm (hstart u op)
  constructor
  · intro e hmem u hu
    rcases List.mem_snoc.mp hmem with hmem | rfl
    · exact h.fresh e hmem u hu
    · obtain ⟨p, hp⟩ := hcall u hu
      exact (h.running u p hp).1
  · intro u p hu
    rcases hcalls u with hsame | hnone
    · obtain ⟨hlt, hfollows⟩ := h.running u p (hsame ▸ hu)
      exact ⟨hlt, hfollows.append (hran u)⟩
    · simp [hnone] at hu
  · intro u op hmem
    rw [hkeep]
    exact h.following u op (hold hmem)
  · intro u op₁ op₂ h₁ h₂
    exact h.started_unique u op₁ op₂ (hold h₁) (hold h₂)
  · intro u st reply hmem
    rcases List.mem_append.mp hmem with hmem | hmem
    · obtain ⟨op, hop⟩ := h.ran_started u st reply hmem
      exact ⟨op, List.mem_append_left _ hop⟩
    · exact absurd (List.mem_singleton.mp hmem).symm (hran u st reply)
  · intro u r hmem
    rcases List.mem_append.mp hmem with hmem | hmem
    · obtain ⟨hnone, hfollows⟩ := h.returned u r hmem
      refine ⟨?_, hfollows.append (hran u)⟩
      rcases hcalls u with hsame | hnone'
      · exact hsame.trans hnone
      · exact hnone'
    · obtain ⟨hnone, hdone⟩ := hreturn u r (List.mem_singleton.mp hmem).symm
      exact ⟨hnone, (h.running u _ hdone).2.append (hran u)⟩

/-- Every step keeps a configuration coherent. -/
theorem Coherent.transition (h : Coherent c) (htrans : Transition c choice c') : Coherent c' := by
  have hupdate : ∀ t u, Function.update c.calls t none u = c.calls u ∨
      Function.update c.calls t none u = none := by
    intro t u
    by_cases hut : u = t
    · exact .inr (by simp [hut])
    · exact .inl (by simp [hut])
  cases htrans with
  | start op => exact h.start op
  | run hcall _ => exact h.run _ _ hcall
  | @finish t r hcall =>
    refine h.quiet c.store (by simp) (by simp) ?_ (hupdate t) ?_
    · rintro u hu
      cases hu
      exact ⟨_, hcall⟩
    · rintro u r' heq
      cases heq
      exact ⟨by simp, hcall⟩
  | @crash t p hcall =>
    refine h.quiet (M.abort t c.store) (by simp) (by simp) ?_ (hupdate t) (by simp)
    rintro u hu
    cases hu
    exact ⟨p, hcall⟩
  | @environment e store _ =>
    exact h.quiet store (by simp) (by simp) (by simp [Event.call?]) (fun _ => .inl rfl) (by simp)

/-- Reachable configurations are coherent. -/
theorem Reachable.coherent (hc : Reachable init guard c) : Coherent c :=
  hc.invariant (fun s _ => .initial s) fun _ _ _ _ h _ htrans => h.transition htrans

/-! ## Contracts along a run -/

/-- A contract for every call of a machine. -/
structure Contract (M : Machine) where
  /-- What a call must have run before it issues a statement. -/
  pre : M.Op → List (Ran M.Stmt M.Ret M.Err) → M.Stmt → Prop
  /-- What a call must have run when it returns a result. -/
  post : M.Op → List (Ran M.Stmt M.Ret M.Err) → Except M.Err M.Result → Prop
  /-- Every program meets the contract. -/
  satisfied : ∀ op, Program.Satisfies (pre op) (post op) [] (M.program op)

/-- At the moment a call runs a statement, its contract's precondition holds of
what the call has run before. -/
theorem Contract.pre_of_call (K : Contract M) (h : Coherent c)
    (hcall : c.calls t = some (.call st next)) :
    ∃ op, .started t op ∈ c.trace ∧ K.pre op (ranBy t c.trace) st := by
  obtain ⟨-, op, hstart, hpath⟩ := h.running t _ hcall
  exact ⟨op, hstart, (hpath.satisfies (K.satisfied op)).1⟩

/-- A statement in the trace was issued under its precondition. -/
theorem Contract.pre_of_ran (K : Contract M) (h : Coherent c) (hstart : .started t op ∈ c.trace)
    (hran : .ran t st reply ∈ c.trace) :
    ∃ before, before <+: ranBy t c.trace ∧ ⟨st, reply⟩ ∉ before ∧ K.pre op before st := by
  obtain ⟨p, hpath⟩ := h.following t op hstart
  exact hpath.pre_of_mem (K.satisfied op) (mem_ranBy.mpr hran)

/-- A returned result meets every postcondition of the program of its call. -/
theorem Coherent.post_of_returned (h : Coherent c) (hstart : .started t op ∈ c.trace)
    (hreturned : .returned t r ∈ c.trace) {pre : List (Ran M.Stmt M.Ret M.Err) → M.Stmt → Prop}
    {post : List (Ran M.Stmt M.Ret M.Err) → Except M.Err M.Result → Prop}
    (hprogram : Program.Satisfies pre post [] (M.program op)) : post (ranBy t c.trace) r := by
  obtain ⟨-, op', hstart', hpath⟩ := h.returned t r hreturned
  obtain rfl := h.started_unique t op op' hstart hstart'
  exact hpath.satisfies hprogram

/-- A returned result meets the postcondition of its call. -/
theorem Contract.post_of_returned (K : Contract M) (h : Coherent c)
    (hstart : .started t op ∈ c.trace) (hreturned : .returned t r ∈ c.trace) :
    K.post op (ranBy t c.trace) r :=
  h.post_of_returned hstart hreturned (K.satisfied op)

/-- A call that is about to return meets its postcondition. -/
theorem Contract.post_of_done (K : Contract M) (h : Coherent c)
    (hcall : c.calls t = some (.done r)) :
    ∃ op, .started t op ∈ c.trace ∧ K.post op (ranBy t c.trace) r := by
  obtain ⟨-, op, hstart, hpath⟩ := h.running t _ hcall
  exact ⟨op, hstart, hpath.satisfies (K.satisfied op)⟩

/-- A kind of statement that is issued only while the call has run none of its kind
is run at most once by every call. -/
theorem Contract.once (K : Contract M) (h : Coherent c) (kind : M.Stmt → Bool)
    (hkind : ∀ op past st, K.pre op past st → kind st = true → ∀ r ∈ past, kind r.1 = false)
    {x y : Ran M.Stmt M.Ret M.Err} (hx : x ∈ ranBy t c.trace)
    (hy : y ∈ ranBy t c.trace) (hkx : kind x.1 = true) (hky : kind y.1 = true) : x = y := by
  obtain ⟨op, hstart⟩ := h.ran_started t x.1 x.2 (mem_ranBy.mp hx)
  obtain ⟨p, hpath⟩ := h.following t op hstart
  exact hpath.once (K.satisfied op) (hkind op) hx hy hkx hky

/-! ## Rules for events -/

/-- What the statements of a trace contribute, with the calls that ran them. -/
def collect {β : Type} (f : Ran M.Stmt M.Ret M.Err → Option β) (trace : List M.Event) :
    List (ℕ × β) :=
  trace.filterMap fun
    | .ran t st reply => (f ⟨st, reply⟩).map fun x => (t, x)
    | _ => none

section Collect

variable {β : Type} {f : Ran M.Stmt M.Ret M.Err → Option β} {trace : List M.Event}

theorem mem_collect {x : β} : (t, x) ∈ collect f trace ↔
      ∃ st reply, .ran t st reply ∈ trace ∧ f ⟨st, reply⟩ = some x := by
  simp only [collect, List.mem_filterMap]
  constructor
  · rintro ⟨event, hmem, heq⟩
    split at heq
    · next u st reply =>
      obtain ⟨y, hy, hpair⟩ := Option.map_eq_some_iff.mp heq
      cases hpair
      exact ⟨st, reply, hmem, hy⟩
    · cases heq
  · rintro ⟨st, reply, hmem, hx⟩
    exact ⟨_, hmem, by simp [hx]⟩

/-- A statement that contributes extends the collection. -/
theorem collect_snoc {x : β} (h : f ⟨st, reply⟩ = some x) :
    collect f (trace ++ [.ran t st reply]) = collect f trace ++ [(t, x)] := by
  simp [collect, h]

/-- A longer trace contributes at least as much. -/
theorem collect_subset {trace' : List M.Event} (h : trace ⊆ trace') :
    collect f trace ⊆ collect f trace' :=
  List.filterMap_subset _ h

/-- Every other event leaves the collection alone. -/
theorem collect_snoc_of_none (h : ∀ t st reply, event = .ran t st reply → f ⟨st, reply⟩ = none) :
    collect f (trace ++ [event]) = collect f trace := by
  cases event with
  | ran t st reply => simp [collect, h t st reply rfl]
  | started | returned | crashed | environment => simp [collect]

end Collect

/-- Every step records one event. -/
theorem Transition.trace (h : Transition c choice c') : ∃ event, c'.trace = c.trace ++ [event] := by
  cases h <;> exact ⟨_, rfl⟩

theorem Transition.subset (h : Transition c choice c') : c.trace ⊆ c'.trace := by
  obtain ⟨event, htrace⟩ := h.trace
  rw [htrace]
  exact List.subset_append_left _ _

/-- The event of a start. -/
theorem Transition.trace_start (h : Transition c (.start op) c') :
    c'.trace = c.trace ++ [.started c.next op] := by
  cases h
  rfl

/-- The event of a statement tells the step that it was. -/
theorem Transition.of_ran (h : Transition c choice c')
    (htrace : c'.trace = c.trace ++ [.ran t st reply]) :
    ∃ o next, choice = .run t o ∧ c.calls t = some (.call st next) ∧
      M.exec t o st c.store = some (reply, c'.store) := by
  cases h with
  | run hcall hexec =>
    cases List.append_cancel_left htrace
    exact ⟨_, _, rfl, hcall, hexec⟩
  | start | finish | crash | environment => cases List.append_cancel_left htrace

/-- What running a statement does to a configuration. -/
theorem Transition.of_run {o : M.Oracle} (h : Transition c (.run t o) c') :
    ∃ st next reply, c.calls t = some (.call st next) ∧
      M.exec t o st c.store = some (reply, c'.store) ∧
      c'.trace = c.trace ++ [.ran t st reply] ∧ c'.next = c.next ∧
      c'.calls = Function.update c.calls t (some (next reply)) := by
  cases h with
  | run hcall hexec => exact ⟨_, _, _, hcall, hexec, rfl, rfl, rfl⟩

section

variable (h : Transition c choice c')
include h

/-- The event of a return tells the step that it was. -/
theorem Transition.of_returned (htrace : c'.trace = c.trace ++ [.returned t r]) :
    c.calls t = some (.done r) := by
  cases h with
  | finish hcall =>
    cases List.append_cancel_left htrace
    exact hcall
  | start | run | crash | environment => cases List.append_cancel_left htrace

/-- A call that has started after a step had started before it, or the step started it. -/
theorem Transition.started (hmem : .started t op ∈ c'.trace) :
    .started t op ∈ c.trace ∨ choice = .start op ∧ t = c.next := by
  obtain ⟨event, htrace⟩ := h.trace
  rw [htrace] at hmem
  rcases List.mem_snoc.mp hmem with hold | rfl
  · exact .inl hold
  · cases h with
    | start op' =>
      cases List.append_cancel_left htrace
      exact .inr ⟨rfl, rfl⟩
    | run | finish | crash | environment => cases List.append_cancel_left htrace

/-- A call that runs after a step ran before it, or the step started it. -/
theorem Transition.running {u : ℕ} (hu : (c'.calls u).isSome = true) :
    (c.calls u).isSome = true ∨ ∃ op, choice = .start op ∧ u = c.next := by
  cases h with
  | start op =>
    by_cases heq : u = c.next
    · exact .inr ⟨op, rfl, heq⟩
    · exact .inl (by simpa [heq] using hu)
  | @run t _ _ _ _ _ hcall _ | @finish t _ hcall | @crash t _ hcall =>
    by_cases heq : u = t
    · exact .inl (by simp [heq, hcall])
    · exact .inl (by simpa [heq] using hu)
  | environment henv => exact .inl hu

/-- A call that runs before a step runs after it, or the step ended it. -/
theorem Transition.ended (ht : (c.calls t).isSome = true) :
    (c'.calls t).isSome = true ∨ (∃ r, choice = .finish t ∧ c.calls t = some (.done r)) ∨
      choice = .crash t := by
  cases h with
  | start op =>
    by_cases heq : t = c.next
    · exact .inl (by simp [heq])
    · exact .inl (by simpa [heq] using ht)
  | @run u o st next reply store hcall hexec =>
    by_cases heq : t = u
    · exact .inl (by simp [heq])
    · exact .inl (by simpa [heq] using ht)
  | @finish u r hcall =>
    by_cases heq : t = u
    · subst heq
      exact .inr (.inl ⟨r, rfl, hcall⟩)
    · exact .inl (by simpa [heq] using ht)
  | @crash u p hcall =>
    by_cases heq : t = u
    · exact .inr (.inr (by rw [heq]))
    · exact .inl (by simpa [heq] using ht)
  | environment henv => exact .inl ht

/-- The history of a call after a step: it is as before, or the call ran a statement. -/
theorem Transition.ranBy_cases (t : ℕ) :
    ranBy t c'.trace = ranBy t c.trace ∨
    ∃ o st next reply, choice = .run t o ∧ c.calls t = some (.call st next) ∧
      M.exec t o st c.store = some (reply, c'.store) ∧
      ranBy t c'.trace = ranBy t c.trace ++ [⟨st, reply⟩] := by
  cases h with
  | @run u o st next reply store hcall hexec =>
    by_cases heq : u = t
    · subst heq
      exact .inr ⟨o, st, next, reply, rfl, hcall, hexec, ranBy_ran_self u c.trace st reply⟩
    · refine .inl (ranBy_append_of_ne c.trace ?_)
      rintro st' reply' hevent
      injection hevent with hut
      exact heq hut
  | start | finish | crash | environment => exact .inl (ranBy_append_of_ne c.trace (by simp))

end

/-- A started call that runs after a step ran before it. -/
theorem Reachable.running_before (hc : Reachable init guard c) (h : Transition c choice c')
    (hstart : .started t op ∈ c.trace) (ht : (c'.calls t).isSome = true) :
    (c.calls t).isSome = true := by
  rcases h.running ht with hrunning | ⟨-, -, rfl⟩
  · exact hrunning
  · exact absurd (hc.coherent.fresh _ hstart _ rfl) (Nat.lt_irrefl _)

/-- A run only adds to the trace. -/
theorem Run.trace (h : Run guard c c') : c.trace <+: c'.trace := by
  induction h with
  | refl => exact List.prefix_rfl
  | tail _ hlast ih =>
    obtain ⟨choice, -, hstep⟩ := hlast
    obtain ⟨event, htrace⟩ := (Transition.of_step hstep).trace
    rw [htrace]
    exact ih.trans (List.prefix_append _ _)

/-- The call that a schedule starts with has started at its end. -/
theorem started_of_runGuarded [∀ c choice, Decidable (guard c choice)] {rest : List (Choice M)}
    (h : runGuarded guard c (.start op :: rest) = some c') : .started c.next op ∈ c'.trace := by
  rw [runGuarded] at h
  split at h
  · obtain ⟨d, hstep, hrest⟩ := Option.bind_eq_some_iff.mp h
    cases hstep
    exact (Run.of_runGuarded hrest).trace.subset (by simp)
  · cases h

/-- A schedule that starts a call after a first part shows a reachable configuration in which the
call has started. -/
theorem exists_started_of_any [∀ c choice, Decidable (guard c choice)] {s : M.Store}
    {first rest : List (Choice M)} {test : Config M → Bool} (hs : init s)
    (h : (runGuarded guard (Config.initial s) first).any (fun d =>
      d.next = t && (runGuarded guard d (.start op :: rest)).any test) = true) :
    ∃ c, Reachable init guard c ∧ .started t op ∈ c.trace ∧ test c = true := by
  obtain ⟨d, hd, hrest⟩ := exists_reachable_of_any hs h
  obtain ⟨hnext, hany⟩ := Bool.and_eq_true_iff.mp hrest
  obtain ⟨c, hrun, htest⟩ := (Option.any_eq_true _ _).mp hany
  have hstart := started_of_runGuarded hrun
  rw [of_decide_eq_true hnext] at hstart
  exact ⟨c, hd.run (Run.of_runGuarded hrun), hstart, htest⟩

/-- The trace around the event at a position. -/
theorem trace_split {i : ℕ} (h : c.trace[i]? = some event) :
    c.trace = c.trace.take i ++ event :: c.trace.drop (i + 1) := by
  obtain ⟨hlt, hevent⟩ := List.getElem?_eq_some_iff.mp h
  rw [← hevent, ← List.drop_eq_getElem_cons hlt, List.take_append_drop]

/-- The step that recorded an event: the configuration before it, the one after it,
and the run from there on. -/
structure Recorded (init : M.Store → Prop) (guard : Guard M) (before : List M.Event)
    (event : M.Event) (c : Config M) (choice : Choice M) (c' final : Config M) : Prop where
  reachable : Reachable init guard c
  allowed : guard c choice
  step : Transition c choice c'
  trace : c.trace = before
  trace' : c'.trace = c.trace ++ [event]
  reachable' : Reachable init guard c'
  rest : Run guard c' final

/-- The run from a recorded step on. -/
theorem Recorded.run (h : Recorded init guard before event c choice c' final) : Run guard c final :=
  Relation.ReflTransGen.head ⟨choice, h.allowed, h.step.to_step⟩ h.rest

/-- Every event of a trace was recorded by a step of the run. -/
theorem Reachable.recorded (hfinal : Reachable init guard final) {after : List M.Event}
    (hsplit : final.trace = before ++ event :: after) :
    ∃ c choice c', Recorded init guard before event c choice c' final := by
  obtain ⟨s, hs, hrun⟩ := hfinal
  induction hrun generalizing after with
  | refl => simp [Config.initial] at hsplit
  | @tail d d' hrun hlast ih =>
    have hd : Reachable init guard d := ⟨s, hs, hrun⟩
    obtain ⟨choice, hguard, hchoice⟩ := hlast
    have htrans := Transition.of_step hchoice
    obtain ⟨last, htrace⟩ := htrans.trace
    rcases List.eq_nil_or_concat after with rfl | ⟨after', x, rfl⟩
    · obtain ⟨hbefore, hevent⟩ := List.append_inj' (htrace.symm.trans hsplit) rfl
      cases hevent
      exact ⟨d, choice, d', hd, hguard, htrans, hbefore, htrace, hd.step hguard hchoice, .refl⟩
    · have hinit : d.trace = before ++ event :: after' := by
        have hsame : d.trace ++ [last] = (before ++ event :: after') ++ [x] := by
          rw [← htrace, hsplit]
          simp
        exact (List.append_inj' hsame rfl).1
      obtain ⟨c, choice', c', hrec⟩ := ih hinit
      exact ⟨c, choice', c', { hrec with rest := hrec.rest.tail ⟨choice, hguard, hchoice⟩ }⟩

/-- Every beginning of a trace is the trace of a moment before. -/
theorem Reachable.exists_of_isPrefix (hc : Reachable init guard c) {past : List M.Event}
    (h : past <+: c.trace) : ∃ c₀, Reachable init guard c₀ ∧ c₀.trace = past := by
  obtain ⟨rest, hsplit⟩ := h
  cases rest with
  | nil => exact ⟨c, hc, by simpa using hsplit.symm⟩
  | cons event rest =>
    obtain ⟨c₀, choice, c', hrec⟩ := hc.recorded hsplit.symm
    exact ⟨c₀, hrec.reachable, hrec.trace⟩

/-- Of two recorded steps one comes first, unless they are the same. -/
theorem Recorded.order {before' : List M.Event} {d d' : Config M}
    (h : Recorded init guard before event c choice c' final)
    (h' : Recorded init guard before' event' d choice' d' final) :
    before' = before ∨ before ++ [event] <+: before' ∨ before' ++ [event'] <+: before := by
  have hprefix : before ++ [event] <+: final.trace := by
    rw [← h.trace, ← h.trace']
    exact h.rest.trace
  have hprefix' : before' ++ [event'] <+: final.trace := by
    rw [← h'.trace, ← h'.trace']
    exact h'.rest.trace
  rcases List.prefix_or_prefix_of_prefix hprefix hprefix' with hle | hle
  · rcases List.prefix_concat_iff.mp hle with heq | hle
    · exact .inl (List.append_inj_left' heq rfl).symm
    · exact .inr (.inl hle)
  · rcases List.prefix_concat_iff.mp hle with heq | hle
    · exact .inl (List.append_inj_left' heq rfl)
    · exact .inr (.inr hle)

/-- The events before a recorded step determine its event. -/
theorem Recorded.event_eq {d d' : Config M} (h : Recorded init guard before event c choice c' final)
    (h' : Recorded init guard before event' d choice' d' final) : event' = event := by
  obtain ⟨after, hafter⟩ := h.rest.trace
  obtain ⟨after', hafter'⟩ := h'.rest.trace
  rw [h.trace', h.trace, List.append_assoc] at hafter
  rw [h'.trace', h'.trace, List.append_assoc] at hafter'
  exact (List.cons.inj (List.append_cancel_left (hafter'.trans hafter.symm))).1

/-- The rule for events: what holds when an event is recorded and is kept by every step
holds ever after. -/
@[elab_as_elim]
theorem Reachable.since {P : Config M → Prop} (hc : Reachable init guard c) (hmem : event ∈ c.trace)
    (hnew : ∀ c choice c', Reachable init guard c → guard c choice → Transition c choice c' →
      c'.trace = c.trace ++ [event] → P c')
    (hkeep : ∀ c choice c', Reachable init guard c → guard c choice → Transition c choice c' →
      P c → P c') : P c := by
  obtain ⟨before, after, htrace⟩ := List.append_of_mem hmem
  obtain ⟨d, choice, d', hrec⟩ := hc.recorded htrace
  refine hrec.rest.invariant hrec.reachable'
    (hnew d choice d' hrec.reachable hrec.allowed hrec.step hrec.trace') ?_
  intro c choice c' hc hP hguard htrans
  exact hkeep c choice c' hc hguard htrans hP

/-- A started call is running, has returned or has disappeared. -/
theorem Reachable.started_cases (hc : Reachable init guard c) : ∀ t op, .started t op ∈ c.trace →
      (∃ p, c.calls t = some p) ∨ (∃ r, .returned t r ∈ c.trace) ∨ .crashed t ∈ c.trace := by
  intro t op hmem
  refine hc.since (P := fun c => (∃ p, c.calls t = some p) ∨ (∃ r, .returned t r ∈ c.trace) ∨
    .crashed t ∈ c.trace) hmem ?_ ?_
  · intro c choice c' _ _ htrans htrace
    cases htrans with
    | start =>
      cases List.append_cancel_left htrace
      exact .inl ⟨_, Function.update_self ..⟩
    | run | finish | crash | environment => cases List.append_cancel_left htrace
  · rintro c choice c' _ _ htrans (⟨p, hp⟩ | ⟨r, hr⟩ | hcrash)
    · rcases htrans.ended (by rw [hp]; rfl) with hrunning | ⟨r, rfl, -⟩ | rfl
      · exact .inl (Option.isSome_iff_exists.mp hrunning)
      · cases htrans
        exact .inr (.inl ⟨_, List.mem_snoc.mpr (.inr rfl)⟩)
      · cases htrans
        exact .inr (.inr (List.mem_snoc.mpr (.inr rfl)))
    · exact .inr (.inl ⟨r, htrans.subset hr⟩)
    · exact .inr (.inr (htrans.subset hcrash))

/-- Calls that start after a configuration have new numbers. -/
theorem Run.started (h : Run guard c c') : c.next ≤ c'.next ∧ ∃ after, c'.trace = c.trace ++ after ∧
      ∀ t op, .started t op ∈ after → c.next ≤ t := by
  induction h with
  | refl => exact ⟨Nat.le_refl _, [], by simp, by simp⟩
  | @tail d d' _ hlast ih =>
    obtain ⟨hle, after, htrace, hnew⟩ := ih
    obtain ⟨choice, -, hchoice⟩ := hlast
    have htrans := Transition.of_step hchoice
    obtain ⟨last, hlast⟩ := htrans.trace
    have hafter : d'.trace = c.trace ++ (after ++ [last]) := by
      rw [hlast, htrace, List.append_assoc]
    have hnext : d.next ≤ d'.next := by
      cases htrans with
      | start op => exact Nat.le_succ _
      | _ => exact Nat.le_refl _
    refine ⟨Nat.le_trans hle hnext, after ++ [last], hafter, fun t op hmem => ?_⟩
    rcases List.mem_snoc.mp hmem with hold | rfl
    · exact hnew t op hold
    · cases htrans with
      | start op' =>
        cases List.append_cancel_left hlast
        exact hle
      | run | finish | crash | environment => cases List.append_cancel_left hlast

end Concurrent.Machine
