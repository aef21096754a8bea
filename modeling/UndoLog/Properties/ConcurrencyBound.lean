import UndoLog.Proxy.Callers

/-!
# The concurrency bound of the proxy

The gate counts the calls that hold a slot and the queue those that have a place, in every
interleaving of their locked sections. Both counters stay within their bounds, a call that
was turned away is in neither of them, and no channel is closed twice.
-/

namespace UndoLog.Proxy.Guard

open Concurrent Machine

variable {B : BackpressureConfig} {c c' : Moment B}

/-! ## What a section does to the counters -/

/-- How a section changes the number of slots taken. -/
def slotChange : Ran Section Section.Ret Panic → ℤ
  | ⟨.tryAcquire, .ok true⟩ => 1
  | ⟨.release, _⟩ => -1
  | _ => 0

/-- How a section changes the number of places taken. -/
def placeChange : Ran Section Section.Ret Panic → ℤ
  | ⟨.joinQueue, .ok true⟩ => 1
  | ⟨.leaveQueue, _⟩ => -1
  | _ => 0

theorem slotChange_le_one (x : Ran Section Section.Ret Panic) : slotChange x ≤ 1 := by
  unfold slotChange
  split <;> decide

theorem placeChange_le_one (x : Ran Section Section.Ret Panic) : placeChange x ≤ 1 := by
  unfold placeChange
  split <;> decide

/-- What keeps channels from being closed twice. -/
structure Gate.Sound (g : Gate) : Prop where
  freed_lt : g.freed < g.made
  closed_lt : ∀ channel ∈ g.closed, channel < g.made
  freed_open : g.freed ∉ g.closed

theorem newGate_sound : newGate.Sound where
  freed_lt := by decide
  closed_lt := by simp [newGate]
  freed_open := by simp [newGate]

theorem Gate.release_inFlight (g : Gate) : g.release.2.inFlight = g.inFlight - 1 := by
  unfold Gate.release
  split <;> rfl

/-- A release closes the current channel and installs one that was never used. -/
theorem Gate.Sound.release {g : Gate} (h : g.Sound) :
    g.release.1 = .ok () ∧ g.release.2.closed = g.freed :: g.closed ∧ g.release.2.Sound := by
  unfold Gate.release
  rw [if_neg h.freed_open]
  refine ⟨rfl, rfl, Nat.lt_succ_self _, ?_, ?_⟩
  · intro channel hmem
    rcases List.mem_cons.mp hmem with rfl | hold
    · exact Nat.lt_succ_of_lt h.freed_lt
    · exact Nat.lt_succ_of_lt (h.closed_lt channel hold)
  · intro hmem
    rcases List.mem_cons.mp hmem with heq | hold
    · exact Nat.ne_of_lt h.freed_lt heq.symm
    · exact absurd (h.closed_lt _ hold) (Nat.lt_irrefl _)

/-- What one section does to the gate and the queue. -/
structure Counted (B : BackpressureConfig) (s : Shared) (x : Ran Section Section.Ret Panic)
    (s' : Shared) : Prop where
  inFlight : s'.gate.inFlight = s.gate.inFlight + slotChange x
  slotFree : slotChange x = 1 → s.gate.inFlight < B.maxInFlight
  waiting : s'.waiting = s.waiting + placeChange x
  placeFree : placeChange x = 1 → s.waiting < B.queueMax
  sound : s.gate.Sound → s'.gate.Sound
  closes : s.gate.Sound → ∀ e, x ≠ ⟨.release, .error e⟩

theorem Counted.of_same {s s' : Shared} {x : Ran Section Section.Ret Panic}
    (hgate : s'.gate = s.gate) (hwaiting : s'.waiting = s.waiting) (hslot : slotChange x = 0)
    (hplace : placeChange x = 0) (hrelease : ∀ e, x ≠ ⟨.release, .error e⟩) : Counted B s x s' where
  inFlight := by rw [hgate, hslot, Int.add_zero]
  slotFree := by rw [hslot]; simp
  waiting := by rw [hwaiting, hplace, Int.add_zero]
  placeFree := by rw [hplace]; simp
  sound := by rw [hgate]; exact id
  closes := fun _ => hrelease

variable {t : ℕ} {o : Circumstance} {st : Section} {past : Past} {guard : Guard (guardMachine B)}

theorem counted_of_exec {s s' : Shared} {reply : Except Panic st.Ret}
    (h : exec B t o s st = some (reply, s')) : Counted B s ⟨st, reply⟩ s' := by
  cases st with
  | allow | newTimer | waitForRelease | selectLast | releaseProbe | rpc | record =>
    cases h
    exact .of_same rfl rfl rfl rfl (by rintro e ⟨⟩)
  | tryAcquire =>
    cases h
    unfold Gate.tryAcquire
    split
    · exact .of_same rfl rfl rfl rfl (by rintro e ⟨⟩)
    · next hfree =>
      refine ⟨rfl, fun _ => by omega, (Int.add_zero _).symm, by simp [placeChange], ?_, ?_⟩
      · exact fun hsound => ⟨hsound.freed_lt, hsound.closed_lt, hsound.freed_open⟩
      · rintro - e ⟨⟩
  | joinQueue =>
    simp only [exec] at h
    split at h
    · cases h
      exact .of_same rfl rfl rfl rfl (by rintro e ⟨⟩)
    · next hfree =>
      cases h
      refine ⟨(Int.add_zero _).symm, by simp [slotChange], rfl, fun _ => by omega, id, ?_⟩
      rintro - e ⟨⟩
  | select justFreed =>
    simp only [exec] at h
    split at h
    · split at h
      · cases h
        exact .of_same rfl rfl rfl rfl (by rintro e ⟨⟩)
      · cases h
    · cases h
      exact .of_same rfl rfl rfl rfl (by rintro e ⟨⟩)
  | leaveQueue =>
    cases h
    refine ⟨(Int.add_zero _).symm, by simp [slotChange], rfl, by simp [placeChange], id, ?_⟩
    rintro - e ⟨⟩
  | release =>
    cases h
    refine ⟨?_, by simp [slotChange], (Int.add_zero _).symm, by simp [placeChange],
      fun hsound => hsound.release.2.2, ?_⟩
    · exact s.gate.release_inFlight
    · intro hsound e heq
      simp only [Sigma.mk.injEq, heq_eq_eq, true_and] at heq
      cases hsound.release.1.symm.trans heq

/-! ## What a section does to its call -/

theorem holds_after (hpre : sectionPre past st) (reply : Except Panic st.Ret) :
    (((phase past).after ⟨st, reply⟩).holds.toNat : ℤ) =
      (phase past).holds.toNat + slotChange ⟨st, reply⟩ := by
  cases st with
  | tryAcquire =>
    obtain ⟨hacquired, hreleased⟩ := hpre
    rcases reply with e | _ | _ <;>
      simp [Phase.after, Phase.holds, slotChange, hacquired, hreleased]
  | release =>
    obtain ⟨hacquired, hreleased⟩ := hpre
    simp [Phase.after, Phase.holds, slotChange, hacquired, hreleased]
  | allow | joinQueue => rcases reply with e | _ | _ <;> simp [Phase.after, Phase.holds, slotChange]
  | _ => simp [Phase.after, Phase.holds, slotChange]

theorem queued_after (hpre : sectionPre past st) (reply : Except Panic st.Ret) :
    (((phase past).after ⟨st, reply⟩).queued.toNat : ℤ) =
      (phase past).queued.toNat + placeChange ⟨st, reply⟩ := by
  cases st with
  | joinQueue =>
    obtain ⟨hjoined, hleft⟩ := hpre
    rcases reply with e | _ | _ <;>
      simp [Phase.after, Phase.queued, placeChange, hjoined, hleft]
  | leaveQueue =>
    obtain ⟨hjoined, hleft⟩ := hpre
    simp [Phase.after, Phase.queued, placeChange, hjoined, hleft]
  | allow | tryAcquire =>
    rcases reply with e | _ | _ <;> simp [Phase.after, Phase.queued, placeChange]
  | _ => simp [Phase.after, Phase.queued, placeChange]

/-! ## The bound -/

/-- The number of calls that hold a slot. -/
def holding (c : Moment B) : ℕ := count Phase.holds c

/-- The number of calls that have a place in the queue. -/
def queueing (c : Moment B) : ℕ := count Phase.queued c

/-- What holds of the counters at every moment. -/
structure Balanced (c : Moment B) : Prop where
  inFlight : (Shared.gate c.store).inFlight = holding c
  waiting : Shared.waiting c.store = queueing c
  inFlight_le : (Shared.gate c.store).inFlight ≤ B.maxInFlight
  waiting_le : Shared.waiting c.store ≤ B.queueMax
  sound : (Shared.gate c.store).Sound

theorem Balanced.of_quiet {choice : Choice (guardMachine B)} (h : Balanced c) (hc : Coherent c)
    (htrans : Transition c choice c') (hrun : ∀ t o, choice ≠ .run t o) : Balanced c' := by
  have hholding : holding c' = holding c := count_quiet rfl hc htrans hrun
  have hqueueing : queueing c' = queueing c := count_quiet rfl hc htrans hrun
  have hstore : Shared.gate c'.store = Shared.gate c.store ∧
      Shared.waiting c'.store = Shared.waiting c.store := by
    cases htrans with
    | run hcall hexec => exact absurd rfl (hrun _ _)
    | environment henv =>
      cases henv
      exact ⟨rfl, rfl⟩
    | _ => exact ⟨rfl, rfl⟩
  refine ⟨?_, ?_, ?_, ?_, ?_⟩
  · rw [hstore.1, hholding]
    exact h.inFlight
  · rw [hstore.2, hqueueing]
    exact h.waiting
  · rw [hstore.1]
    exact h.inFlight_le
  · rw [hstore.2]
    exact h.waiting_le
  · rw [hstore.1]
    exact h.sound

theorem Balanced.of_run (h : Balanced c) (hc : Coherent c) (htrans : Transition c (.run t o) c') :
    Balanced c' := by
  obtain ⟨st, next, reply, hcall, hexec, htrace, hnext, -⟩ := htrans.of_run
  obtain ⟨op, -, hpre⟩ := (guardContract B).pre_of_call hc hcall
  have hcounted : Counted B c.store ⟨st, reply⟩ c'.store := counted_of_exec hexec
  have hinFlight := hcounted.inFlight
  have hwaiting := hcounted.waiting
  refine ⟨?_, ?_, ?_, ?_, hcounted.sound h.sound⟩
  · have hslots := count_ran Phase.holds hc hcall hnext htrace
    have hholds := holds_after hpre reply
    have hbefore := h.inFlight
    unfold holding at hbefore ⊢
    unfold phaseOf at hslots
    omega
  · have hplaces := count_ran Phase.queued hc hcall hnext htrace
    have hqueued := queued_after hpre reply
    have hbefore := h.waiting
    unfold queueing at hbefore ⊢
    unfold phaseOf at hplaces
    omega
  · have hbefore := h.inFlight_le
    have hone := slotChange_le_one ⟨st, reply⟩
    by_cases hslot : slotChange ⟨st, reply⟩ = 1
    · have hfree := hcounted.slotFree hslot
      omega
    · omega
  · have hbefore := h.waiting_le
    have hone := placeChange_le_one ⟨st, reply⟩
    by_cases hplace : placeChange ⟨st, reply⟩ = 1
    · have hfree := hcounted.placeFree hplace
      omega
    · omega

/-- The counters are balanced at every moment. -/
theorem balanced (hmax : 0 ≤ B.maxInFlight) (hqueue : 0 ≤ B.queueMax) (hc : Arises B guard c) :
    Balanced c := by
  refine hc.invariant ?_ ?_
  · rintro s ⟨hgate, hwaiting, -, -⟩
    refine ⟨?_, ?_, ?_, ?_, ?_⟩
    · change s.gate.inFlight = 0
      rw [hgate]
      rfl
    · exact hwaiting
    · change s.gate.inFlight ≤ _
      rw [hgate]
      exact hmax
    · change s.waiting ≤ _
      rw [hwaiting]
      exact hqueue
    · change s.gate.Sound
      rw [hgate]
      exact newGate_sound
  · intro c choice c' hc ih _ htrans
    cases choice with
    | run t o => exact ih.of_run hc.coherent htrans
    | start | environment => exact ih.of_quiet hc.coherent htrans (by rintro t o ⟨⟩)
    | finish t => exact ih.of_quiet hc.coherent htrans (by rintro t o ⟨⟩)
    | crash t => exact ih.of_quiet hc.coherent htrans (by rintro t o ⟨⟩)

theorem release_ok (hmax : 0 ≤ B.maxInFlight) (hqueue : 0 ≤ B.queueMax) (hc : Arises B guard c)
    {reply : Except Panic Unit} (h : Event.ran (M := guardMachine B) t .release reply ∈ c.trace) :
    reply = .ok () := by
  obtain ⟨before, after, htrace⟩ := List.append_of_mem h
  obtain ⟨d, choice, d', hrec⟩ := hc.recorded htrace
  obtain ⟨o, next, -, -, hexec⟩ := hrec.step.of_ran hrec.trace'
  have hsound := (balanced hmax hqueue hrec.reachable).sound
  have hreply : (Shared.gate d.store).release.1 = reply :=
    congrArg Prod.fst (Option.some.inj hexec)
  exact hreply.symm.trans hsound.release.1

/-- A call was turned away. -/
def Refused (c : Moment B) (t : ℕ) (rejection : Rejection) : Prop :=
  Event.returned (M := guardMachine B) t (.ok (.error rejection)) ∈ c.trace

/-- In every interleaving of guarded calls the gate counts the calls that hold a slot and the queue
those that have a place, both within their bounds, a call that was turned away is in neither count
and has never had a slot, and no channel is closed twice. -/
theorem concurrency_bounded (hmax : 1 ≤ B.maxInFlight) (hqueue : 1 ≤ B.queueMax)
    (hc : Arises B unguarded c) :
    (0 ≤ (Shared.gate c.store).inFlight ∧ (Shared.gate c.store).inFlight ≤ B.maxInFlight ∧
      (Shared.gate c.store).inFlight = holding c) ∧
    (0 ≤ Shared.waiting c.store ∧ Shared.waiting c.store ≤ B.queueMax ∧
      Shared.waiting c.store = queueing c) ∧
    (∀ t rejection, Refused c t rejection → (phaseOf c t).acquired = false ∧
      (phaseOf c t).holds = false ∧ (phaseOf c t).queued = false) ∧
    ∀ (t : ℕ) (reply : Except Panic Unit),
      Event.ran (M := guardMachine B) t .release reply ∈ c.trace → reply = .ok () := by
  have hmax : 0 ≤ B.maxInFlight := by omega
  have hqueue : 0 ≤ B.queueMax := by omega
  have hbalanced := balanced hmax hqueue hc
  have hinFlight := hbalanced.inFlight
  have hwaiting := hbalanced.waiting
  refine ⟨⟨by omega, hbalanced.inFlight_le, hinFlight⟩,
    ⟨by omega, hbalanced.waiting_le, hwaiting⟩, ?_, fun t reply => release_ok hmax hqueue hc⟩
  intro t rejection hrefused
  obtain ⟨-, op, hstart, -⟩ := hc.coherent.returned t _ hrefused
  obtain ⟨hslot, hplace, hnone⟩ := (guardContract B).post_of_returned hc.coherent hstart hrefused
  have hacquired := hnone ⟨rejection, rfl⟩
  refine ⟨hacquired, ?_, ?_⟩
  · simp [Phase.holds, phaseOf, hacquired]
  · rw [Phase.queued, phaseOf, hplace]
    simp

/-! ## A run of a small guard -/

/-- One slot, one place in the queue and a breaker that opens after one failure. -/
def smallGuard : BackpressureConfig where
  maxInFlight := 1
  queueMax := 1
  queueWait := 1
  breakerThreshold := 1
  breakerReset := 1

/-- A guard as it is built. -/
def newShared : Shared where
  gate := newGate
  waiting := 0
  breaker := newBreaker
  clock := 0
  admissions := []

theorem newShared_fresh : Fresh newShared := ⟨rfl, rfl, rfl, rfl⟩

/-- Several sections of one call. -/
def sections (t n : ℕ) : List (Choice (guardMachine B)) := List.replicate n (.run t {})

/-- Three calls at once: one holds the slot, one waits, one is turned away. -/
def crowded : List (Choice (guardMachine B)) :=
  [.start (), .start (), .start ()] ++ sections 0 2 ++ sections 1 6 ++ sections 2 4 ++ [.finish 2]

/-- Whether a call was turned away. -/
def refusedTest (t : ℕ) (c : Moment B) : Bool :=
  c.trace.any fun
    | .returned u (.ok (.error .queueFull)) => u = t
    | _ => false

/-- One call runs, one waits, a third is refused. -/
theorem crowded_bounded :
    ∃ c : Moment smallGuard, Arises smallGuard unguarded c ∧ Refused c 2 .queueFull ∧
      (Shared.gate c.store).inFlight = 1 ∧ Shared.waiting c.store = 1 ∧ holding c = 1 ∧
      queueing c = 1 ∧ (phaseOf c 2).holds = false := by
  have hrun : (runGuarded unguarded (Config.initial (M := guardMachine smallGuard) newShared)
      crowded).any (fun c => refusedTest 2 c && (Shared.gate c.store).inFlight = 1 &&
        Shared.waiting c.store = 1) = true := by
    decide +kernel
  obtain ⟨c, hc, htest⟩ := exists_reachable_of_any newShared_fresh hrun
  simp only [Bool.and_eq_true, decide_eq_true_eq] at htest
  obtain ⟨⟨hrefused, hinFlight⟩, hwaiting⟩ := htest
  have hrefused : Refused c 2 .queueFull := by
    obtain ⟨event, hmem, hevent⟩ := List.any_eq_true.mp hrefused
    split at hevent
    · next u =>
      obtain rfl : u = 2 := by simpa using hevent
      exact hmem
    · cases hevent
  obtain ⟨⟨-, -, hholding⟩, ⟨-, -, hqueueing⟩, hleft, -⟩ :=
    concurrency_bounded (by decide) (by decide) hc
  refine ⟨c, hc, hrefused, hinFlight, hwaiting, ?_, ?_, (hleft 2 _ hrefused).2.1⟩
  · omega
  · omega

end UndoLog.Proxy.Guard
