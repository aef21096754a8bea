import UndoLog.Proxy.Guard

/-!
# What a guarded call has done

The sections that a call has run tell whether it holds a slot, has a place in the queue and
has settled its admission by the breaker. The contract of the guard says which of these a
section needs and what is left at the end.
-/

namespace UndoLog.Proxy.Guard

open Concurrent Machine

variable {B : BackpressureConfig}

/-- What a call has run. -/
abbrev Past : Type := List (Ran Section Section.Ret Panic)

/-! ## Phases -/

/-- What a call has done so far. -/
structure Phase where
  /-- `allow` has admitted it. -/
  allowed : Bool := false
  /-- It has taken a slot of the gate. -/
  acquired : Bool := false
  /-- It has given the slot back. -/
  released : Bool := false
  /-- It has taken a place in the queue. -/
  joined : Bool := false
  /-- It has given the place back. -/
  left : Bool := false
  /-- It has told the breaker its outcome, or that it did not reach the engine. -/
  settled : Bool := false

/-- The phase after one more section. -/
def Phase.after (p : Phase) : Ran Section Section.Ret Panic → Phase
  | ⟨.allow, .ok true⟩ => { p with allowed := true }
  | ⟨.tryAcquire, .ok true⟩ => { p with acquired := true }
  | ⟨.release, _⟩ => { p with released := true }
  | ⟨.joinQueue, .ok true⟩ => { p with joined := true }
  | ⟨.leaveQueue, _⟩ => { p with left := true }
  | ⟨.record _, _⟩ | ⟨.releaseProbe, _⟩ => { p with settled := true }
  | _ => p

/-- The phase of a call that has run some sections. -/
def phase (past : Past) : Phase := past.foldl Phase.after {}

@[simp] theorem phase_snoc (past : Past) (x : Ran Section Section.Ret Panic) :
    phase (past ++ [x]) = (phase past).after x := by
  simp [phase, List.foldl_append]

/-- A call holds a slot of the gate. -/
def Phase.holds (p : Phase) : Bool := p.acquired && !p.released

/-- A call has a place in the queue. -/
def Phase.queued (p : Phase) : Bool := p.joined && !p.left

/-! ## The contract -/

/-- What a call must have done before a section. -/
def sectionPre (past : Past) : Section → Prop
  | .allow => past = []
  | .tryAcquire => (phase past).acquired = false ∧ (phase past).released = false
  | .joinQueue => (phase past).joined = false ∧ (phase past).left = false
  | .leaveQueue => (phase past).joined = true ∧ (phase past).left = false
  | .release => (phase past).acquired = true ∧ (phase past).released = false
  | .record _ | .releaseProbe => (phase past).allowed = true ∧ (phase past).settled = false
  | .select justFreed | .selectLast justFreed =>
    ∃ before, past = before ++ [⟨.waitForRelease, .ok justFreed⟩, ⟨.tryAcquire, .ok false⟩]
  | .newTimer | .waitForRelease | .rpc => True

/-- A postcondition that a panic need not meet. -/
def unlessPanic {α : Type} (post : Past → α → Prop) (past : Past) : Except Panic α → Prop
  | .ok a => post past a
  | .error _ => True

variable {c c' : Moment B} {st : Section} {t : ℕ} {past : Past}

/-- A section followed by more of the call. -/
theorem satisfies_sect {α : Type} {post : Past → α → Prop}
    {f : st.Ret → Caller α} (hpre : sectionPre past st)
    (hok : ∀ a, Program.Satisfies sectionPre (unlessPanic post) (past ++ [⟨st, .ok a⟩]) (f a)) :
    Program.Satisfies sectionPre (unlessPanic post) past (sect st >>= f) :=
  Program.satisfies_stmt_bind hpre (fun _ => trivial) hok

/-- A part of the call followed by more of it. -/
theorem satisfies_part {α β : Type} {middle : Past → α → Prop} {post : Past → β → Prop}
    {p : Caller α} {f : α → Caller β}
    (hp : Program.Satisfies sectionPre (unlessPanic middle) past p)
    (hf : ∀ after a, middle after a → Program.Satisfies sectionPre (unlessPanic post) after (f a)) :
    Program.Satisfies sectionPre (unlessPanic post) past (p >>= f) := by
  refine hp.andThen ?_
  rintro after (e | a) hmiddle
  · trivial
  · exact hf after a hmiddle

/-- What the parts of a call that look for a slot leave behind. -/
def Taken (p : Phase) (after : Past) (r : Option Rejection) : Prop :=
  phase after = { p with acquired := r.isNone }

variable {p : Phase} {reply : Except Panic st.Ret}

theorem admitRound_satisfies {wait : Channel → Caller (Option Rejection)}
    (hacquired : p.acquired = false) (hreleased : p.released = false)
    (hphase : phase past = p)
    (hwait : ∀ justFreed, Program.Satisfies sectionPre (unlessPanic (Taken p))
      (past ++ [⟨.waitForRelease, .ok justFreed⟩] ++ [⟨.tryAcquire, .ok false⟩]) (wait justFreed)) :
    Program.Satisfies sectionPre (unlessPanic (Taken p)) past (admitRound wait) := by
  refine satisfies_sect trivial fun justFreed => ?_
  have hfetched : phase (past ++ [⟨.waitForRelease, .ok justFreed⟩]) = p := by
    rw [phase_snoc, hphase]
    rfl
  refine satisfies_sect ?_ fun acquired => ?_
  · rw [sectionPre, hfetched]
    exact ⟨hacquired, hreleased⟩
  · cases acquired with
    | true =>
      change Taken p _ none
      rw [Taken, phase_snoc, hfetched]
      rfl
    | false => exact hwait justFreed

theorem admitLoop_satisfies (rounds : ℕ) (hacquired : p.acquired = false)
    (hreleased : p.released = false) (hphase : phase past = p) :
    Program.Satisfies sectionPre (unlessPanic (Taken p)) past (admitLoop rounds) := by
  have hkept : p = { p with acquired := false } := by
    rw [← hacquired]
  induction rounds generalizing past with
  | zero =>
    refine admitRound_satisfies hacquired hreleased hphase fun justFreed => ?_
    refine satisfies_sect ⟨past, by simp⟩ fun expiry => ?_
    change Taken p _ (some _)
    rw [Taken, phase_snoc, phase_snoc, phase_snoc, hphase]
    exact hkept
  | succ rounds ih =>
    refine admitRound_satisfies hacquired hreleased hphase fun justFreed => ?_
    refine satisfies_sect ⟨past, by simp⟩ fun wake => ?_
    have hwoken : phase (past ++ [⟨.waitForRelease, .ok justFreed⟩] ++
        [⟨.tryAcquire, .ok false⟩] ++ [⟨.select justFreed, .ok wake⟩]) = p := by
      rw [phase_snoc, phase_snoc, phase_snoc, hphase]
      rfl
    cases wake with
    | freed => exact ih hwoken
    | timer | context => exact hwoken.trans hkept

/-- What `acquire` leaves behind: a slot if there is a gate and it succeeds, and no place in
the queue. -/
def Entered (allowed gated : Bool) (after : Past) (r : Option Rejection) : Prop :=
  ∃ queued, phase after =
    { allowed, acquired := gated && r.isNone, joined := queued, left := queued }

section Enter

variable {allowed : Bool} {past : Past}

theorem queueAdmit_satisfies (hphase : phase past = { allowed }) :
    Program.Satisfies sectionPre (unlessPanic (Entered allowed true)) past queueAdmit := by
  refine satisfies_sect ?_ fun acquired => ?_
  · rw [sectionPre, hphase]
    exact ⟨rfl, rfl⟩
  · cases acquired with
    | true =>
      refine ⟨false, ?_⟩
      rw [phase_snoc, hphase]
      rfl
    | false =>
      have htried : phase (past ++ [⟨.tryAcquire, .ok false⟩]) = { allowed } := by
        rw [phase_snoc, hphase]
        rfl
      refine satisfies_sect ?_ fun joined => ?_
      · rw [sectionPre, htried]
        exact ⟨rfl, rfl⟩
      · cases joined with
        | false =>
          refine ⟨false, ?_⟩
          rw [phase_snoc, htried]
          rfl
        | true =>
          refine satisfies_sect trivial fun rounds => ?_
          refine satisfies_part (admitLoop_satisfies rounds (p := { allowed, joined := true })
            rfl rfl ?_) fun after refused htaken => ?_
          · rw [phase_snoc, phase_snoc, htried]
            rfl
          · rw [Taken] at htaken
            refine satisfies_sect ?_ fun _ => ⟨true, ?_⟩
            · rw [sectionPre, htaken]
              exact ⟨rfl, rfl⟩
            · rw [phase_snoc, htaken]
              rfl

theorem acquire_satisfies (hphase : phase past = { allowed }) :
    Program.Satisfies sectionPre (unlessPanic (Entered allowed B.hasGate)) past (acquire B) := by
  unfold acquire
  by_cases hqueue : B.hasQueue = true
  · have hgate : B.hasGate = true := by
      simp only [BackpressureConfig.hasQueue, Bool.and_eq_true] at hqueue
      exact hqueue.1.1
    rw [if_pos hqueue, hgate]
    exact queueAdmit_satisfies hphase
  · rw [if_neg hqueue]
    by_cases hgate : B.hasGate = true
    · rw [if_pos hgate, hgate]
      refine satisfies_sect ?_ fun acquired => ⟨false, ?_⟩
      · rw [sectionPre, hphase]
        exact ⟨rfl, rfl⟩
      · rw [phase_snoc, hphase]
        cases acquired <;> rfl
    · rw [if_neg hgate, eq_false_of_ne_true hgate]
      exact ⟨false, hphase⟩

/-- The phase of a call that goes on to its RPC. -/
def insidePhase (B : BackpressureConfig) (queued : Bool) : Phase where
  allowed := B.hasBreaker
  acquired := B.hasGate
  joined := queued
  left := queued

/-- What `enter` leaves behind: a call that goes on has a slot if there is a gate, and one that
was turned away has none. -/
def Admitted (B : BackpressureConfig) (after : Past) : Option Rejection → Prop
  | none => ∃ queued, phase after = insidePhase B queued
  | some _ => (phase after).acquired = false ∧ (phase after).released = false ∧
      (phase after).joined = (phase after).left

theorem enterGate_satisfies (hphase : phase past = { allowed := B.hasBreaker }) :
    Program.Satisfies sectionPre (unlessPanic (Admitted B)) past (enterGate B) := by
  refine satisfies_part (acquire_satisfies hphase) fun after refused hentered => ?_
  obtain ⟨queued, hafter⟩ := hentered
  cases refused with
  | none =>
    refine ⟨queued, ?_⟩
    rw [hafter]
    simp [insidePhase]
  | some rejection =>
    have hnone : (B.hasGate && (some rejection).isNone) = false := by simp
    rw [hnone] at hafter
    dsimp only
    split
    · next hbreaker =>
      refine satisfies_sect ?_ fun _ => ?_
      · rw [sectionPre, hafter]
        exact ⟨hbreaker, rfl⟩
      · change Admitted B _ (some rejection)
        rw [Admitted, phase_snoc, hafter]
        exact ⟨rfl, rfl, rfl⟩
    · change Admitted B _ (some rejection)
      rw [Admitted, hafter]
      exact ⟨rfl, rfl, rfl⟩

theorem enter_satisfies : Program.Satisfies sectionPre (unlessPanic (Admitted B)) [] (enter B) := by
  unfold enter
  by_cases hbreaker : B.hasBreaker = true
  · rw [if_pos hbreaker]
    refine satisfies_sect rfl fun allowed => ?_
    cases allowed with
    | true =>
      refine enterGate_satisfies ?_
      rw [hbreaker]
      rfl
    | false => exact ⟨rfl, rfl, rfl⟩
  · rw [if_neg hbreaker]
    refine enterGate_satisfies ?_
    rw [eq_false_of_ne_true hbreaker]
    rfl

end Enter

/-- A call that has ended has nothing left to give back, and one that was turned away never
had a slot. -/
def Ended (after : Past) (r : Except Rejection RpcResult) : Prop :=
  (phase after).acquired = (phase after).released ∧ (phase after).joined = (phase after).left ∧
    ((∃ rejection, r = .error rejection) → (phase after).acquired = false)

theorem leave_satisfies (result : RpcResult) {queued : Bool}
    (hphase : phase past = insidePhase B queued) :
    Program.Satisfies sectionPre (unlessPanic fun after _ =>
      (phase after).acquired = (phase after).released ∧ (phase after).joined = (phase after).left)
      past (leave B result) := by
  have hslot : Program.Satisfies sectionPre (unlessPanic fun after _ =>
      phase after = { insidePhase B queued with released := B.hasGate }) past
      (ifBuilt B.hasGate (sect .release)) := by
    unfold ifBuilt
    by_cases hgate : B.hasGate = true
    · rw [if_pos hgate, hgate]
      refine ⟨?_, fun reply => ?_⟩
      · rw [sectionPre, hphase]
        exact ⟨hgate, rfl⟩
      · cases reply with
        | error e => trivial
        | ok _ =>
          change phase _ = _
          rw [phase_snoc, hphase]
          rfl
    · rw [if_neg hgate, eq_false_of_ne_true hgate]
      exact hphase
  refine satisfies_part hslot fun after _ hafter => ?_
  unfold ifBuilt
  by_cases hbreaker : B.hasBreaker = true
  · rw [if_pos hbreaker]
    refine ⟨?_, fun reply => ?_⟩
    · rw [sectionPre, hafter]
      exact ⟨hbreaker, rfl⟩
    · cases reply with
      | error e => trivial
      | ok _ =>
        change _ ∧ _
        rw [phase_snoc, hafter]
        exact ⟨rfl, rfl⟩
  · rw [if_neg hbreaker]
    change _ ∧ _
    rw [hafter]
    exact ⟨rfl, rfl⟩

theorem guarded_satisfies : Program.Satisfies sectionPre (unlessPanic Ended) [] (guarded B) := by
  refine satisfies_part enter_satisfies fun after refused hadmitted => ?_
  cases refused with
  | some rejection =>
    obtain ⟨hacquired, hreleased, hqueue⟩ := hadmitted
    exact ⟨hacquired.trans hreleased.symm, hqueue, fun _ => hacquired⟩
  | none =>
    obtain ⟨queued, hafter⟩ := hadmitted
    refine satisfies_sect trivial fun result => ?_
    have hinside : phase (after ++ [⟨.rpc, .ok result⟩]) = insidePhase B queued := by
      rw [phase_snoc, hafter]
      rfl
    refine satisfies_part (leave_satisfies result hinside) fun last _ hlast => ?_
    refine ⟨hlast.1, hlast.2, ?_⟩
    rintro ⟨rejection, heq⟩
    cases heq

/-- The contract of the guard. -/
def guardContract (B : BackpressureConfig) : Contract (guardMachine B) where
  pre := fun _ => sectionPre
  post := fun _ => unlessPanic Ended
  satisfied := fun _ => guarded_satisfies

/-! ## Phases along a run -/

/-- The phase of a call. -/
def phaseOf (c : Moment B) (t : ℕ) : Phase := phase (ranBy t c.trace)

theorem phaseOf_ran (htrace : c'.trace = c.trace ++ [.ran t st reply]) :
    phaseOf c' t = (phaseOf c t).after ⟨st, reply⟩ := by
  unfold phaseOf
  rw [htrace]
  exact (congrArg phase (ranBy_ran_self t c.trace st reply)).trans (phase_snoc _ _)

/-- The number of calls that are in a phase of some kind. -/
def count (P : Phase → Bool) (c : Moment B) : ℕ := Machine.tally (fun past => P (phase past)) c

theorem count_quiet {P : Phase → Bool} (hP : P {} = false) (hc : Coherent c)
    {choice : Choice (guardMachine B)} (htrans : Transition c choice c')
    (hrun : ∀ t o, choice ≠ .run t o) : count P c' = count P c :=
  htrans.tally_quiet hc hP hrun

theorem count_ran (P : Phase → Bool) (hc : Coherent c) {p : Caller (Except Rejection RpcResult)}
    (hcall : c.calls t = some p) (hnext : c'.next = c.next)
    (htrace : c'.trace = c.trace ++ [.ran t st reply]) : count P c' + (P (phaseOf c t)).toNat =
      count P c + (P ((phaseOf c t).after ⟨st, reply⟩)).toNat :=
  (tally_ran (P := fun past => P (phase past)) hc hcall hnext htrace).trans
    (congrArg (fun p => count P c + (P p).toNat) (phase_snoc (ranBy t c.trace) ⟨st, reply⟩))

end UndoLog.Proxy.Guard
