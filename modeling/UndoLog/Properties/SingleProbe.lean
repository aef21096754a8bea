import UndoLog.Properties.ConcurrencyBound

/-!
# The half-open probe of the proxy's breaker

A breaker whose reset interval is over lets one call through and waits for its outcome. The
outcome carries no mark of the call it belongs to: a call from before the breaker opened that
ends while the probe is on its way settles the probe in its place.
-/

namespace UndoLog.Proxy.Guard

open Concurrent Machine

variable {B : BackpressureConfig} {c c' : Moment B}

/-! ## Probes -/

/-- `allow` has admitted a call in the half-open or the expired open state. -/
def Probe (c : Moment B) (t : ℕ) : Prop :=
  ∃ admission ∈ Shared.admissions c.store, admission.1 = t ∧ admission.2 ≠ .closed

/-- A probe that was neither recorded nor released. -/
def Outstanding (c : Moment B) (t : ℕ) : Prop := Probe c t ∧ (phaseOf c t).settled = false

instance (c : Moment B) (t : ℕ) : Decidable (Probe c t) := by
  unfold Probe
  infer_instance

/-- Only a probe settles the half-open state. -/
def SettlesOwn (c : Moment B) (t : ℕ) (st : (guardMachine B).Stmt) : Prop :=
  match (st : Section) with
  | .record _ | .releaseProbe => (Shared.breaker c.store).state = .halfOpen → Probe c t
  | _ => True

instance (c : Moment B) (t : ℕ) (st : (guardMachine B).Stmt) : Decidable (SettlesOwn c t st) := by
  cases (st : Section) <;> (unfold SettlesOwn; infer_instance)

/-- Whenever a call is recorded or gives its permit back while the breaker is half-open, the
breaker has admitted it as a probe. -/
abbrev ProbesSettle (B : BackpressureConfig) : Guard (guardMachine B) := onStatements SettlesOwn

/-! ## What one step does to the probes -/

theorem Phase.settled_after (p : Phase) (x : Ran Section Section.Ret Panic)
    (h : (p.after x).settled = false) : p.settled = false := by
  unfold Phase.after at h
  split at h <;> first | exact h | cases h

variable {choice : Choice (guardMachine B)} {t : ℕ}

/-- A call that has not settled its admission after a step had not before it. -/
theorem unsettled_before (htrans : Transition c choice c') (h : (phaseOf c' t).settled = false) :
    (phaseOf c t).settled = false := by
  obtain ⟨event, htrace⟩ := htrans.trace
  by_cases hown : ∃ st reply, event = .ran t st reply
  · obtain ⟨st, reply, rfl⟩ := hown
    rw [phaseOf_ran htrace] at h
    exact Phase.settled_after _ _ h
  · unfold phaseOf at h
    rw [htrace, ranBy_append_of_ne c.trace (by simpa using hown)] at h
    exact h

theorem Breaker.allow_cases (b : Breaker) (now : ℕ) :
    (b.state = .closed ∧ b.allow B now = (true, b)) ∨ b.allow B now = (false, b) ∨
    (b.state ≠ .closed ∧ (b.state = .halfOpen → b.probing = false) ∧
      b.allow B now = (true, { b with state := .halfOpen, probing := true })) := by
  unfold Breaker.allow
  obtain ⟨failures, state, openedAt, probing⟩ := b
  cases state with
  | closed => exact .inl ⟨rfl, rfl⟩
  | halfOpen =>
    cases probing with
    | true => exact .inr (.inl rfl)
    | false => exact .inr (.inr ⟨by simp, by simp, rfl⟩)
  | «open» =>
    dsimp only
    split
    · exact .inr (.inr ⟨by simp, by simp, rfl⟩)
    · exact .inr (.inl rfl)

/-- A section that tells the breaker how a call has ended. -/
def Section.settles : Section → Bool
  | .record _ | .releaseProbe => true
  | _ => false

theorem breaker_of_exec {o : Circumstance} {st : Section} {s s' : Shared}
    {reply : Except Panic st.Ret} (h : exec B t o s st = some (reply, s')) :
    (s'.breaker = s.breaker ∧ s'.admissions = s.admissions) ∨
    (s'.admissions = (t, s.breaker.state) :: s.admissions ∧
      (s.breaker.state = .closed ∧ s'.breaker = s.breaker ∨
        (s.breaker.state = .halfOpen → s.breaker.probing = false) ∧
          s'.breaker.state = .halfOpen ∧ s'.breaker.probing = true)) ∨
    (st.settles = true ∧ s'.admissions = s.admissions) := by
  cases st with
  | allow =>
    obtain ⟨hclosed, hallow⟩ | hallow | ⟨hopen, hfree, hallow⟩ :=
      Breaker.allow_cases (B := B) s.breaker s.clock
    · simp only [exec, hallow] at h
      cases h
      exact .inr (.inl ⟨rfl, .inl ⟨hclosed, rfl⟩⟩)
    · simp only [exec, hallow] at h
      cases h
      exact .inl ⟨rfl, rfl⟩
    · simp only [exec, hallow] at h
      cases h
      exact .inr (.inl ⟨rfl, .inr ⟨hfree, rfl, rfl⟩⟩)
  | record | releaseProbe =>
    cases h
    exact .inr (.inr ⟨rfl, rfl⟩)
  | joinQueue =>
    simp only [exec] at h
    split at h <;>
    · cases h
      exact .inl ⟨rfl, rfl⟩
  | select justFreed =>
    simp only [exec] at h
    split at h
    · split at h
      · cases h
        exact .inl ⟨rfl, rfl⟩
      · cases h
    · cases h
      exact .inl ⟨rfl, rfl⟩
  | _ =>
    cases h
    exact .inl ⟨rfl, rfl⟩

/-- What a step does to the breaker and its admissions: nothing, an answer of `allow`, or
telling the breaker an outcome. -/
inductive BreakerStep (c c' : Moment B) : Prop
  | keep (hbreaker : Shared.breaker c'.store = Shared.breaker c.store)
      (hadmissions : Shared.admissions c'.store = Shared.admissions c.store)
  | admitted (t : ℕ)
      (hadmissions : Shared.admissions c'.store =
        (t, (Shared.breaker c.store).state) :: Shared.admissions c.store)
      (hbreaker : ((Shared.breaker c.store).state = .closed ∧
          Shared.breaker c'.store = Shared.breaker c.store) ∨
        ((Shared.breaker c.store).state = .halfOpen → (Shared.breaker c.store).probing = false) ∧
          (Shared.breaker c'.store).state = .halfOpen ∧ (Shared.breaker c'.store).probing = true)
  | settled (t : ℕ) (hopen : (phaseOf c t).settled = false)
      (hsettled : (phaseOf c' t).settled = true)
      (hadmissions : Shared.admissions c'.store = Shared.admissions c.store)
      (hprobe : (Shared.breaker c.store).state = .halfOpen → Probe c t)

theorem breakerStep_of_transition (hc : Arises B (ProbesSettle B) c)
    (hguard : ProbesSettle B c choice) (htrans : Transition c choice c') : BreakerStep c c' := by
  cases choice with
  | start | finish | crash =>
    cases htrans
    exact .keep rfl rfl
  | environment e =>
    cases htrans with
    | environment henv =>
      cases henv
      exact .keep rfl rfl
  | run t o =>
    obtain ⟨st, next, reply, hcall, hexec, htrace, -, -⟩ := htrans.of_run
    have hcond : SettlesOwn c t st := onStatements_run hguard hcall
    obtain ⟨op, -, hpre⟩ := (guardContract B).pre_of_call hc.coherent hcall
    have hphase := phaseOf_ran htrace
    rcases breaker_of_exec hexec with ⟨hbreaker, hadmissions⟩ | ⟨hadmissions, hbreaker⟩ |
      ⟨hsettles, hadmissions⟩
    · exact .keep hbreaker hadmissions
    · exact .admitted t hadmissions hbreaker
    · have hsettled : ((phaseOf c t).after ⟨st, reply⟩).settled = true ∧
          (phaseOf c t).settled = false ∧
          ((Shared.breaker c.store).state = .halfOpen → Probe c t) := by
        cases st with
        | record | releaseProbe => exact ⟨rfl, hpre.2, hcond⟩
        | _ => cases hsettles
      exact .settled t hsettled.2.1 (hphase ▸ hsettled.1) hadmissions hsettled.2.2

/-! ## One probe at a time -/

/-- What holds of the probes at every moment. -/
structure OneProbe (c : Moment B) : Prop where
  /-- The breaker waits for an outstanding probe. -/
  halfOpen : ∀ t, Outstanding c t → (Shared.breaker c.store).state = .halfOpen ∧
    (Shared.breaker c.store).probing = true
  /-- There is one at most. -/
  unique : ∀ t u, Outstanding c t → Outstanding c u → t = u

theorem Outstanding.before (htrans : Transition c choice c')
    (hadmissions : Shared.admissions c'.store = Shared.admissions c.store)
    (h : Outstanding c' t) : Outstanding c t := by
  obtain ⟨hprobe, hsettled⟩ := h
  refine ⟨?_, unsettled_before htrans hsettled⟩
  rw [Probe, hadmissions] at hprobe
  exact hprobe

theorem OneProbe.step (h : OneProbe c)
    (htrans : Transition c choice c') (hstep : BreakerStep c c') : OneProbe c' := by
  cases hstep with
  | keep hbreaker hadmissions =>
    refine ⟨fun t ht => ?_, fun t u ht hu => ?_⟩
    · rw [hbreaker]
      exact h.halfOpen t (ht.before htrans hadmissions)
    · exact h.unique t u (ht.before htrans hadmissions) (hu.before htrans hadmissions)
  | settled t hopen hsettled hadmissions hprobe =>
    -- no probe is outstanding after its outcome
    have hnone : ∀ u, ¬ Outstanding c' u := by
      intro u hu
      have hbefore := hu.before htrans hadmissions
      have hown : Outstanding c t := ⟨hprobe (h.halfOpen u hbefore).1, hopen⟩
      obtain rfl := h.unique u t hbefore hown
      rw [hu.2] at hsettled
      cases hsettled
    exact ⟨fun u hu => absurd hu (hnone u), fun u _ hu => absurd hu (hnone u)⟩
  | admitted t hadmissions hbreaker =>
    -- nothing was outstanding when the call was admitted
    have hnone : ∀ u, ¬ Outstanding c u := by
      intro u hu
      obtain ⟨hhalf, hprobing⟩ := h.halfOpen u hu
      rcases hbreaker with ⟨hclosed, -⟩ | ⟨hfree, -, -⟩
      · cases hhalf.symm.trans hclosed
      · rw [hfree hhalf] at hprobing
        cases hprobing
    have hnew : ∀ u, Outstanding c' u → u = t ∧ (Shared.breaker c.store).state ≠ .closed := by
      rintro u ⟨⟨admission, hmem, hu, hstate⟩, hsettled⟩
      rw [hadmissions] at hmem
      rcases List.mem_cons.mp hmem with rfl | hold
      · exact ⟨hu.symm, hstate⟩
      · exact absurd ⟨⟨admission, hold, hu, hstate⟩, unsettled_before htrans hsettled⟩ (hnone u)
    refine ⟨fun u hu => ?_, fun u v hu hv => (hnew u hu).1.trans (hnew v hv).1.symm⟩
    rcases hbreaker with ⟨hclosed, -⟩ | ⟨-, hhalf, hprobing⟩
    · exact absurd hclosed (hnew u hu).2
    · exact ⟨hhalf, hprobing⟩

theorem oneProbe (hc : Arises B (ProbesSettle B) c) : OneProbe c := by
  refine hc.invariant ?_ ?_
  · rintro s ⟨-, -, -, hadmissions⟩
    have hnone : ∀ t, ¬ Outstanding (Config.initial (M := guardMachine B) s) t := by
      rintro t ⟨⟨admission, hmem, -⟩, -⟩
      change admission ∈ s.admissions at hmem
      rw [hadmissions] at hmem
      cases hmem
    exact ⟨fun t ht => absurd ht (hnone t), fun t _ ht => absurd ht (hnone t)⟩
  · intro c choice c' hc ih hguard htrans
    exact ih.step htrans (breakerStep_of_transition hc hguard htrans)

/-- While only probes settle the half-open state, the breaker stays half-open as long as a
probe is outstanding, there is no second one, and it admits no call. -/
theorem single_probe (hc : Arises B (ProbesSettle B) c) {t : ℕ} (ht : Outstanding c t) :
    (Shared.breaker c.store).state = .halfOpen ∧ (∀ u, Outstanding c u → u = t) ∧
      ∀ (u : ℕ) (o : Circumstance) (reply : Except Panic Bool) (s' : Shared),
        exec B u o c.store .allow = some (reply, s') → reply = .ok false := by
  have hone := oneProbe hc
  obtain ⟨hhalf, hprobing⟩ := hone.halfOpen t ht
  refine ⟨hhalf, fun u hu => hone.unique u t hu ht, ?_⟩
  intro u o reply s' hexec
  have hallow : (Shared.breaker c.store).allow B (Shared.clock c.store) =
      (false, Shared.breaker c.store) := by
    unfold Breaker.allow
    rw [hhalf, hprobing]
    rfl
  simp only [exec, hallow] at hexec
  cases hexec
  rfl

/-! ## Runs of a breaker -/

/-- A breaker that opens after one failure, and neither gate nor queue. -/
def breakerOnly : BackpressureConfig where
  maxInFlight := 0
  queueMax := 0
  queueWait := 0
  breakerThreshold := 1
  breakerReset := 1

/-- An RPC that has lost its connection. -/
def lost : Circumstance := { rpc := .failed (.status .unavailable "") }

/-- The first call fails and the breaker opens. After the reset interval another call is the
probe. -/
def probed : List (Choice (guardMachine B)) :=
  [.start (), .start (), .run 0 {}, .run 1 {}, .run 0 lost, .run 0 {}, .environment (1 : ℕ),
    .start (), .run 2 {}]

/-- Whether the breaker is in a state while a call is an outstanding probe. -/
def probeTest (t : ℕ) (state : BreakerState) (c : Moment B) : Bool :=
  (Shared.breaker c.store).state = state && (decide (Probe c t) && !(phaseOf c t).settled)

theorem outstanding_of_probeTest {state : BreakerState} (h : probeTest t state c = true) :
    (Shared.breaker c.store).state = state ∧ Outstanding c t := by
  simpa [probeTest, Outstanding] using h

/-- A probe is alone in half-open. -/
theorem probe_alone : ∃ c : Moment breakerOnly, Arises breakerOnly (ProbesSettle breakerOnly) c ∧
      Outstanding c 2 ∧ (Shared.breaker c.store).state = .halfOpen ∧
      ∀ u, Outstanding c u → u = 2 := by
  have hrun : (runGuarded (ProbesSettle breakerOnly)
      (Config.initial (M := guardMachine breakerOnly) newShared) probed).any
        (probeTest 2 .halfOpen) = true := by
    decide +kernel
  obtain ⟨c, hc, htest⟩ := exists_reachable_of_any newShared_fresh hrun
  obtain ⟨-, hprobe⟩ := outstanding_of_probeTest htest
  obtain ⟨hhalf, hunique, -⟩ := single_probe hc hprobe
  exact ⟨c, hc, hprobe, hhalf, hunique⟩

/-- A call from before the breaker opened succeeds while the probe is on its way: the breaker
closes and admits the next call. -/
theorem probe_overtaken :
    ∃ c : Moment breakerOnly, Arises breakerOnly unguarded c ∧ Outstanding c 2 ∧
      (Shared.breaker c.store).state = .closed ∧ (phaseOf c 3).allowed = true := by
  have hrun : (runGuarded unguarded (Config.initial (M := guardMachine breakerOnly) newShared)
      (probed ++ [.run 1 {}, .run 1 {}, .start (), .run 3 {}])).any
        (fun c => probeTest 2 .closed c && (phaseOf c 3).allowed) = true := by
    decide +kernel
  obtain ⟨c, hc, htest⟩ := exists_reachable_of_any newShared_fresh hrun
  obtain ⟨hprobe, hallowed⟩ := Bool.and_eq_true_iff.mp htest
  obtain ⟨hclosed, houtstanding⟩ := outstanding_of_probeTest hprobe
  exact ⟨c, hc, houtstanding, hclosed, hallowed⟩

end UndoLog.Proxy.Guard
