import UndoLog.Concurrent.History
import UndoLog.Engine.CircuitBreaker

/-!
# The test request of the engine's circuit breaker

A breaker whose cooldown is over lets a test request through and waits for its outcome. The
half-open state has no memory of the request that made it: `check` lets everyone pass there,
and any outcome that is recorded settles it.
-/

namespace UndoLog.RateLimit

open Concurrent Machine

variable {L : Limits} {c c' : Moment L}

/-! ## The time of a test -/

/-- The calls that have passed `check` at or after the last transition from open to half-open,
as long as no outcome of one of them is recorded. -/
def testing : List Note → Option (List ℕ)
  | [] => none
  | .passed t .open :: _ => some [t]
  | .passed t _ :: rest => (testing rest).map (t :: ·)
  | .recorded t :: rest => (testing rest).filter (t ∉ ·)

/-- In the time of a test one check has let a call pass, and the breaker is still half-open. -/
def OneTest (c : Moment L) : Prop :=
  ∀ calls, testing (Shared.log c.store) = some calls →
    calls.length = 1 ∧ (Shared.inner c.store).state = .halfOpen

/-- A half-open breaker is asked by nobody, and told only the outcome of a call that has passed
`check` since it is half-open. -/
def LeavesTest (c : Moment L) (t : ℕ) (st : (limiter L).Stmt) : Prop :=
  match (st : Section) with
  | .check => (Shared.inner c.store).state ≠ .halfOpen
  | .recordSuccess | .recordFailure _ => (Shared.inner c.store).state = .halfOpen →
      ∃ calls ∈ testing (Shared.log c.store), t ∈ calls
  | _ => True

instance (c : Moment L) (t : ℕ) (st : (limiter L).Stmt) : Decidable (LeavesTest c t st) := by
  cases (st : Section) <;> (unfold LeavesTest; infer_instance)

/-- Every step leaves the test request to itself. -/
abbrev TestsAlone (L : Limits) : Guard (limiter L) := onStatements LeavesTest

/-! ## What one step does to the breaker -/

theorem testing_passed {t : ℕ} {state : CircuitState} {log : List Note} (h : state ≠ .open) :
    testing (.passed t state :: log) = (testing log).map (t :: ·) := by
  cases state with
  | «open» => exact absurd rfl h
  | closed | halfOpen => rfl

theorem Inner.check_cases (b : Inner) (now : ℕ) : (b.state = .open ∧ b.check L now = (false, b)) ∨
    (b.state ≠ .open ∧ b.check L now = (true, b)) ∨
    (b.state = .open ∧ b.check L now = (true, { b with state := .halfOpen })) := by
  obtain ⟨state, openedAt⟩ := b
  cases state with
  | closed | halfOpen => exact .inr (.inl ⟨by simp, rfl⟩)
  | «open» =>
    cases openedAt with
    | none => exact .inl ⟨rfl, rfl⟩
    | some opened =>
      by_cases hcooldown : now - opened ≥ L.cooldown
      · exact .inr (.inr ⟨rfl, if_pos hcooldown⟩)
      · exact .inl ⟨rfl, if_neg hcooldown⟩

theorem Inner.recordSuccess_state (b : Inner) : b.recordSuccess.state ≠ .halfOpen := by
  unfold Inner.recordSuccess
  split
  · simp
  · assumption

theorem Inner.recordFailure_state (b : Inner) (now : ℕ) (current : UInt32) :
    (b.recordFailure L now current).state ≠ .halfOpen := by
  unfold Inner.recordFailure
  split
  · simp
  · split <;> simp [*]
  · simp [*]

/-- What a step does to the breaker and its log, and what the condition says about it. -/
inductive BreakerStep (c : Moment L) (choice : Choice (limiter L)) (c' : Moment L) : Prop
  | keep (hinner : Shared.inner c'.store = Shared.inner c.store)
      (hlog : Shared.log c'.store = Shared.log c.store) (hguard : TestsAlone L c choice)
  | passed (t : ℕ) (hopen : (Shared.inner c.store).state ≠ .open)
      (hinner : Shared.inner c'.store = Shared.inner c.store)
      (hlog : Shared.log c'.store = .passed t (Shared.inner c.store).state :: Shared.log c.store)
      (hguard : TestsAlone L c choice ↔ (Shared.inner c.store).state ≠ .halfOpen)
  | began (t : ℕ) (hhalf : (Shared.inner c'.store).state = .halfOpen)
      (hlog : Shared.log c'.store = .passed t .open :: Shared.log c.store)
      (hguard : TestsAlone L c choice)
  | recorded (t : ℕ) (hstate : (Shared.inner c'.store).state ≠ .halfOpen)
      (hlog : Shared.log c'.store = .recorded t :: Shared.log c.store)
      (hguard : TestsAlone L c choice ↔ ((Shared.inner c.store).state = .halfOpen →
        ∃ calls ∈ testing (Shared.log c.store), t ∈ calls))

variable {choice : Choice (limiter L)}

theorem breakerStep_of_transition (htrans : Transition c choice c') : BreakerStep c choice c' := by
  cases choice with
  | start | finish | crash =>
    cases htrans
    exact .keep rfl rfl trivial
  | environment e =>
    cases htrans with
    | environment henv =>
      cases henv
      exact .keep rfl rfl trivial
  | run t work =>
    obtain ⟨st, next, reply, hcall, hexec, -, -, -⟩ := htrans.of_run
    have hguard : TestsAlone L c (.run t work) ↔ LeavesTest c t st := onStatements_iff hcall
    have hstore : c'.store = (exec L t work c.store st).2 :=
      congrArg Prod.snd (Option.some.inj hexec).symm
    have hinner := congrArg Shared.inner hstore
    have hlog := congrArg Shared.log hstore
    cases st with
    | check =>
      rcases (Shared.inner c.store).check_cases (Shared.clock c.store) (L := L) with
        ⟨hopen, hcheck⟩ | ⟨hopen, hcheck⟩ | ⟨hopen, hcheck⟩
      · simp only [exec, hcheck] at hinner hlog
        refine .keep hinner hlog (hguard.mpr ?_)
        intro hhalf
        cases hopen.symm.trans hhalf
      · simp only [exec, hcheck] at hinner hlog
        exact .passed t hopen hinner hlog hguard
      · simp only [exec, hcheck, hopen] at hinner hlog
        refine .began t (congrArg Inner.state hinner) hlog (hguard.mpr ?_)
        intro hhalf
        cases hopen.symm.trans hhalf
    | recordSuccess =>
      refine .recorded t ?_ hlog hguard
      rw [hinner]
      exact Inner.recordSuccess_state _
    | recordFailure current =>
      refine .recorded t ?_ hlog hguard
      rw [hinner]
      exact Inner.recordFailure_state _ _ _
    | tryAcquire =>
      by_cases hfree : (Shared.permits c.store).length < L.maxConcurrency
      · simp only [exec, if_pos hfree] at hinner hlog
        exact .keep hinner hlog (hguard.mpr trivial)
      · simp only [exec, if_neg hfree] at hinner hlog
        exact .keep hinner hlog (hguard.mpr trivial)
    | _ => exact .keep hinner hlog (hguard.mpr trivial)

/-! ## One test at a time -/

/-- The breaker is half-open exactly in the time of a test, of which there is one. -/
def Tested (c : Moment L) : Prop :=
  ((Shared.inner c.store).state = .halfOpen ∧ ∃ t, testing (Shared.log c.store) = some [t]) ∨
  ((Shared.inner c.store).state ≠ .halfOpen ∧ testing (Shared.log c.store) = none)

theorem Tested.oneTest (h : Tested c) : OneTest c := by
  intro calls hcalls
  rcases h with ⟨hhalf, t, htest⟩ | ⟨-, hnone⟩
  · obtain rfl : [t] = calls := Option.some.inj (htest.symm.trans hcalls)
    exact ⟨rfl, hhalf⟩
  · rw [hnone] at hcalls
    cases hcalls

theorem Tested.step (h : Tested c) (hstep : BreakerStep c choice c')
    (hguard : TestsAlone L c choice) : Tested c' := by
  cases hstep with
  | keep hinner hlog _ =>
    unfold Tested
    rw [hinner, hlog]
    exact h
  | passed t hopen hinner hlog hiff =>
    have hstate := hiff.mp hguard
    obtain ⟨hhalf, -⟩ | ⟨-, hnone⟩ := h
    · exact absurd hhalf hstate
    · refine .inr ⟨hinner ▸ hstate, ?_⟩
      rw [hlog, testing_passed hopen, hnone]
      rfl
  | began t hhalf hlog _ =>
    refine .inl ⟨hhalf, t, ?_⟩
    rw [hlog]
    rfl
  | recorded t hstate hlog hiff =>
    refine .inr ⟨hstate, ?_⟩
    rw [hlog, testing]
    obtain ⟨hhalf, u, htest⟩ | ⟨-, hnone⟩ := h
    · obtain ⟨calls, hcalls, hmem⟩ := hiff.mp hguard hhalf
      obtain rfl : [u] = calls := Option.some.inj (htest.symm.trans hcalls)
      rw [htest]
      simpa using hmem
    · rw [hnone]
      rfl

theorem Tested.broken (h : Tested c) (hstep : BreakerStep c choice c')
    (hguard : ¬ TestsAlone L c choice) : ¬ OneTest c' := by
  intro hone
  cases hstep with
  | keep _ _ hkept | began _ _ _ hkept => exact hguard hkept
  | passed t hopen hinner hlog hiff =>
    have hhalf : (Shared.inner c.store).state = .halfOpen := by
      by_contra hstate
      exact hguard (hiff.mpr hstate)
    obtain ⟨-, u, htest⟩ | ⟨hstate, -⟩ := h
    · -- two calls have passed
      have hboth : testing (Shared.log c'.store) = some [t, u] := by
        rw [hlog, testing_passed hopen, htest]
        rfl
      cases (hone _ hboth).1
    · exact hstate hhalf
  | recorded t hstate hlog hiff =>
    have hold : (Shared.inner c.store).state = .halfOpen ∧
        ¬ ∃ calls ∈ testing (Shared.log c.store), t ∈ calls := by
      by_contra hcond
      refine hguard (hiff.mpr fun hhalf => ?_)
      by_contra hmem
      exact hcond ⟨hhalf, hmem⟩
    obtain ⟨-, u, htest⟩ | ⟨hclosed, -⟩ := h
    · -- the outcome is not that of the test, whose time goes on
      have hne : t ∉ [u] := fun hmem => hold.2 ⟨[u], htest, hmem⟩
      have hlasts : testing (Shared.log c'.store) = some [u] := by
        rw [hlog, testing, htest]
        simpa using hne
      exact hstate (hone _ hlasts).2
    · exact hclosed hold.1

theorem tested (hc : Arises L (TestsAlone L) c) : Tested c := by
  refine hc.invariant ?_ ?_
  · rintro s ⟨-, hinner, -, hlog⟩
    refine .inr ⟨?_, ?_⟩
    · change s.inner.state ≠ .halfOpen
      rw [hinner]
      simp
    · change testing s.log = none
      rw [hlog]
      rfl
  · intro c choice c' _ ih hguard htrans
    exact ih.step (breakerStep_of_transition htrans) hguard

/-- While every step leaves the test request to itself, one check lets a call pass in the time of a
test and no outcome changes the state there. The first other step ends this. -/
theorem single_test (hc : Arises L (TestsAlone L) c) :
    OneTest c ∧ ∀ choice c', Transition c choice c' → (OneTest c' ↔ TestsAlone L c choice) := by
  have htested := tested hc
  refine ⟨htested.oneTest, ?_⟩
  intro choice c' htrans
  have hstep := breakerStep_of_transition htrans
  constructor
  · intro hone
    by_contra hguard
    exact htested.broken hstep hguard hone
  · intro hguard
    exact (htested.step hstep hguard).oneTest

/-! ## Runs of a breaker -/

/-- A breaker that opens after one error. -/
def sensitive : Limits where
  errorThreshold := 1
  cooldown := 1
  maxConcurrency := 10

/-- A new breaker and limiter. -/
def newShared : Shared where
  consecutiveErrors := 0
  inner := { state := .closed, openedAt := none }
  permits := []
  clock := 0
  log := []

theorem newShared_fresh : Fresh newShared := ⟨rfl, rfl, rfl, rfl⟩

/-- The first call fails and the breaker opens. After the cooldown another call is the test. -/
def failedOnce : List (Choice (limiter L)) :=
  [.start (), .run 0 (.error .database), .run 0 (.error .database), .run 0 (.error .database),
    .run 0 (.error .database), .run 0 (.error .database), .environment (1 : ℕ), .start (),
    .run 1 (.error .database)]

/-- That test is alone. -/
theorem test_alone : ∃ c : Moment sensitive, Arises sensitive (TestsAlone sensitive) c ∧
      testing (Shared.log c.store) = some [1] ∧ OneTest c := by
  have hrun : (runGuarded (TestsAlone sensitive)
      (Config.initial (M := limiter sensitive) newShared) failedOnce).any
        (fun c => testing (Shared.log c.store) = some [1]) = true := by
    decide +kernel
  obtain ⟨c, hc, htest⟩ := exists_reachable_of_any newShared_fresh hrun
  exact ⟨c, hc, of_decide_eq_true htest, (single_test hc).1⟩

/-- Another call passes `check` while the test request is on its way. -/
theorem second_test : ∃ c : Moment sensitive, Arises sensitive unguarded c ∧ ¬ OneTest c := by
  have hrun : (runGuarded unguarded (Config.initial (M := limiter sensitive) newShared)
      (failedOnce ++ [.start (), .run 2 (.error .database)])).any
        (fun c => testing (Shared.log c.store) = some [2, 1]) = true := by
    decide +kernel
  obtain ⟨c, hc, htest⟩ := exists_reachable_of_any newShared_fresh hrun
  refine ⟨c, hc, ?_⟩
  intro hone
  cases (hone _ (of_decide_eq_true htest)).1

end UndoLog.RateLimit
