import UndoLog.Properties.ConcurrencyBound

/-!
# No lost wake-ups in the queue of the proxy

A waiter fetches the channel of the next release before it tries the gate. While that channel
is open nothing was released since the fetch, so the slots that were taken when the gate
refused the waiter are still taken.
-/

namespace UndoLog.Proxy.Guard

open Concurrent Machine

variable {B : BackpressureConfig} {c c' : Moment B} {t : ℕ}

/-! ## Releases -/

/-- A release of the gate. -/
def isRelease : (guardMachine B).Event → Bool
  | .ran _ .release _ => true
  | _ => false

/-- The number of releases so far. -/
def releases (trace : List (guardMachine B).Event) : ℕ := trace.countP isRelease

theorem releases_snoc (trace : List (guardMachine B).Event) (event : (guardMachine B).Event) :
    releases (trace ++ [event]) = releases trace + (isRelease event).toNat := by
  unfold releases
  rw [List.countP_append, List.countP_singleton]
  cases isRelease event <;> rfl

/-- What a section does to the channels and the slots: a release closes the current channel,
and no other section closes one or frees a slot. -/
theorem gate_of_exec {o : Circumstance} {st : Section} {s s' : Shared}
    {reply : Except Panic st.Ret} (hsound : s.gate.Sound) (h : exec B t o s st = some (reply, s')) :
    (isRelease (B := B) (.ran t st reply) = true ∧ s'.gate.closed = s.gate.freed :: s.gate.closed) ∨
    (isRelease (B := B) (.ran t st reply) = false ∧ s'.gate.closed = s.gate.closed ∧
      s'.gate.freed = s.gate.freed ∧ s.gate.inFlight ≤ s'.gate.inFlight) := by
  cases st with
  | release =>
    cases h
    exact .inl ⟨rfl, hsound.release.2.1⟩
  | tryAcquire =>
    cases h
    right
    dsimp only
    unfold Gate.tryAcquire
    split
    · exact ⟨rfl, rfl, rfl, Int.le_refl _⟩
    · exact ⟨rfl, rfl, rfl, Int.le_add_of_nonneg_right (by decide)⟩
  | joinQueue =>
    simp only [exec] at h
    split at h <;>
    · cases h
      exact .inr ⟨rfl, rfl, rfl, Int.le_refl _⟩
  | select justFreed =>
    simp only [exec] at h
    split at h
    · split at h
      · cases h
        exact .inr ⟨rfl, rfl, rfl, Int.le_refl _⟩
      · cases h
    · cases h
      exact .inr ⟨rfl, rfl, rfl, Int.le_refl _⟩
  | _ =>
    cases h
    exact .inr ⟨rfl, rfl, rfl, Int.le_refl _⟩

theorem gate_of_transition {choice : Choice (guardMachine B)}
    (hsound : (Shared.gate c.store).Sound) (htrans : Transition c choice c') :
    (releases c'.trace = releases c.trace + 1 ∧ (Shared.gate c'.store).closed =
      (Shared.gate c.store).freed :: (Shared.gate c.store).closed) ∨
    (releases c'.trace = releases c.trace ∧
      (Shared.gate c'.store).closed = (Shared.gate c.store).closed ∧
      (Shared.gate c'.store).freed = (Shared.gate c.store).freed ∧
      (Shared.gate c.store).inFlight ≤ (Shared.gate c'.store).inFlight) := by
  cases choice with
  | run t o =>
    obtain ⟨st, next, reply, -, hexec, htrace, -, -⟩ := htrans.of_run
    rw [htrace, releases_snoc]
    rcases gate_of_exec hsound hexec with ⟨hrelease, hclosed⟩ | ⟨hother, hkept⟩
    · exact .inl ⟨by rw [hrelease]; rfl, hclosed⟩
    · exact .inr ⟨by rw [hother]; rfl, hkept⟩
  | start | finish | crash =>
    cases htrans
    exact .inr ⟨releases_snoc _ _, rfl, rfl, Int.le_refl _⟩
  | environment e =>
    cases htrans with
    | environment henv =>
      cases henv
      exact .inr ⟨releases_snoc _ _, rfl, rfl, Int.le_refl _⟩

theorem releases_le {guard : Guard (guardMachine B)} (hrun : Run guard c c') :
    releases c.trace ≤ releases c'.trace :=
  hrun.trace.sublist.countP_le

section Since

variable {guard : Guard (guardMachine B)} {d : Moment B} (hmax : 0 ≤ B.maxInFlight)
  (hqueue : 0 ≤ B.queueMax) (hd : Arises B guard d) (hrun : Run guard d c)
include hmax hqueue hd hrun

theorem open_since (hopen : (Shared.gate d.store).freed ∉ (Shared.gate c.store).closed) :
    releases c.trace = releases d.trace := by
  have hinvariant : (releases c.trace = releases d.trace ∧
      (Shared.gate c.store).freed = (Shared.gate d.store).freed) ∨
      (Shared.gate d.store).freed ∈ (Shared.gate c.store).closed := by
    refine hrun.invariant hd (.inl ⟨rfl, rfl⟩) ?_
    intro c choice c' hc ih _ htrans
    have hsound := (balanced hmax hqueue hc).sound
    rcases gate_of_transition hsound htrans with ⟨-, hclosed⟩ | ⟨hcount, hclosed, hfreed, -⟩
    · -- whatever was current, it is closed now
      right
      rw [hclosed]
      rcases ih with ⟨-, hcurrent⟩ | hold
      · rw [hcurrent]
        exact List.mem_cons_self
      · exact List.mem_cons_of_mem _ hold
    · rcases ih with ⟨hsame, hcurrent⟩ | hold
      · exact .inl ⟨hcount.trans hsame, hfreed.trans hcurrent⟩
      · exact .inr (hclosed ▸ hold)
  rcases hinvariant with ⟨hsame, -⟩ | hclosed
  · exact hsame
  · exact absurd hclosed hopen

theorem taken_since (hsame : releases c.trace = releases d.trace) :
    (Shared.gate d.store).inFlight ≤ (Shared.gate c.store).inFlight := by
  have hinvariant : releases d.trace ≤ releases c.trace ∧ (releases c.trace = releases d.trace →
      (Shared.gate d.store).inFlight ≤ (Shared.gate c.store).inFlight) := by
    refine hrun.invariant hd ⟨Nat.le_refl _, fun _ => Int.le_refl _⟩ ?_
    rintro c choice c' hc ⟨hle, ih⟩ _ htrans
    have hsound := (balanced hmax hqueue hc).sound
    rcases gate_of_transition hsound htrans with ⟨hcount, -⟩ | ⟨hcount, -, -, hslots⟩
    · exact ⟨by omega, fun hequal => by omega⟩
    · exact ⟨by omega, fun hequal => Int.le_trans (ih (by omega)) hslots⟩
  exact hinvariant.2 hsame

end Since

/-! ## Blocked waiters -/

/-- A waiter is in the `select` on a channel. -/
def Blocked (c : Moment B) (t : ℕ) (justFreed : Channel) : Prop :=
  ∃ st next, (st = .select justFreed ∨ st = .selectLast justFreed) ∧
    c.calls t = some (.call st next)

/-- The event of a section. -/
abbrev ran (t : ℕ) (st : Section) (reply : Except Panic st.Ret) : (guardMachine B).Event :=
  .ran t st reply

/-- A blocked waiter has fetched its channel and was then refused by the gate, and has run
nothing since. -/
theorem blocked_history {guard : Guard (guardMachine B)} (hc : Arises B guard c)
    {justFreed : Channel} (h : Blocked c t justFreed) : ∃ earlier between later, c.trace =
        earlier ++ ran t .waitForRelease (.ok justFreed) :: between ++
          ran t .tryAcquire (.ok false) :: later ∧ ranBy t between = [] ∧ ranBy t later = [] := by
  obtain ⟨st, next, hst, hcall⟩ := h
  obtain ⟨op, -, hpre⟩ := (guardContract B).pre_of_call hc.coherent hcall
  rcases hst with rfl | rfl
  · obtain ⟨before, hpast⟩ := hpre
    exact ranBy_split_last hpast
  · obtain ⟨before, hpast⟩ := hpre
    exact ranBy_split_last hpast

/-- While a waiter is blocked on a channel that is open, nothing was released since it fetched
the channel, and all slots were taken when the gate refused it and ever since. -/
theorem no_lost_wakeup (hqueue : B.hasQueue = true) (hc : Arises B unguarded c)
    {justFreed : Channel} (hblocked : Blocked c t justFreed)
    (hopen : justFreed ∉ (Shared.gate c.store).closed) : ∃ earlier between later, c.trace =
        earlier ++ ran t .waitForRelease (.ok justFreed) :: between ++
          ran t .tryAcquire (.ok false) :: later ∧
      ranBy t between = [] ∧ ranBy t later = [] ∧ releases c.trace = releases earlier ∧
      ∃ d : Moment B, d.trace = earlier ++ ran t .waitForRelease (.ok justFreed) :: between ∧
        Run unguarded d c ∧ ∀ x, Run unguarded d x → Run unguarded x c →
          (Shared.gate x.store).inFlight = B.maxInFlight := by
  simp only [BackpressureConfig.hasQueue, BackpressureConfig.hasGate, Bool.and_eq_true,
    decide_eq_true_eq] at hqueue
  obtain ⟨⟨hmax, hdepth⟩, -⟩ := hqueue
  have hmax : 0 ≤ B.maxInFlight := by omega
  have hdepth : 0 ≤ B.queueMax := by omega
  obtain ⟨earlier, between, later, htrace, hbetween, hlater⟩ := blocked_history hc hblocked
  -- the fetch
  have hfetch : c.trace = earlier ++ ran t .waitForRelease (.ok justFreed) ::
      (between ++ ran t .tryAcquire (.ok false) :: later) := by
    rw [htrace]
    simp
  obtain ⟨e, choice, e', hfetched⟩ := hc.recorded hfetch
  obtain ⟨o, next, -, -, hexec⟩ := hfetched.step.of_ran hfetched.trace'
  obtain ⟨hcurrent, hkept⟩ := Prod.mk.inj (Option.some.inj hexec)
  have hfreed : (Shared.gate e.store).freed = justFreed := Except.ok.inj hcurrent
  rw [← hfreed] at hopen
  have hcount : releases c.trace = releases earlier := by
    rw [open_since hmax hdepth hfetched.reachable hfetched.run hopen, hfetched.trace]
  -- the attempt
  obtain ⟨d, choice', d', htried⟩ := hc.recorded htrace
  obtain ⟨o', next', -, -, hexec'⟩ := htried.step.of_ran htried.trace'
  have hfull : B.maxInFlight ≤ (Shared.gate d.store).inFlight := by
    have hreply : ((Shared.gate d.store).tryAcquire B).1 = false :=
      Except.ok.inj (congrArg Prod.fst (Option.some.inj hexec'))
    by_contra hfree
    rw [Gate.tryAcquire, if_neg (by omega)] at hreply
    cases hreply
  refine ⟨earlier, between, later, htrace, hbetween, hlater, hcount, d, htried.trace,
    htried.run, ?_⟩
  intro x hdx hxc
  have hx := htried.reachable.run hdx
  have hbound := (balanced hmax hdepth hx).inFlight_le
  have hearlier : releases earlier ≤ releases d.trace := by
    rw [htried.trace]
    exact (List.prefix_append _ _).sublist.countP_le
  have hle := releases_le hdx
  have hle' := releases_le hxc
  have hslots := taken_since hmax hdepth htried.reachable hdx (by omega)
  omega

/-- Whether a waiter is in its last `select`. -/
def blockedTest (t justFreed : ℕ) (c : Moment B) : Bool :=
  match c.calls t with
  | some (.call (.selectLast channel) _) => channel = justFreed
  | _ => false

/-- The waiter of the crowded guard is blocked, and the slot is still taken. -/
theorem crowded_no_lost_wakeup :
    ∃ c : Moment smallGuard, Arises smallGuard unguarded c ∧ Blocked c 1 0 ∧
      0 ∉ (Shared.gate c.store).closed ∧ (Shared.gate c.store).inFlight = 1 := by
  have hrun : (runGuarded unguarded (Config.initial (M := guardMachine smallGuard) newShared)
      crowded).any (fun c => blockedTest 1 0 c && (Shared.gate c.store).closed.isEmpty) = true := by
    decide +kernel
  obtain ⟨c, hc, htest⟩ := exists_reachable_of_any newShared_fresh hrun
  obtain ⟨hblocked, hclosed⟩ := Bool.and_eq_true_iff.mp htest
  have hblocked : Blocked c 1 0 := by
    unfold blockedTest at hblocked
    split at hblocked
    · next channel next hcall =>
      obtain rfl : channel = 0 := by simpa using hblocked
      exact ⟨_, next, .inr rfl, hcall⟩
    · cases hblocked
  have hopen : 0 ∉ (Shared.gate c.store).closed := by
    rw [List.isEmpty_iff.mp hclosed]
    exact List.not_mem_nil
  obtain ⟨earlier, between, later, -, -, -, -, d, -, hdc, hfull⟩ :=
    no_lost_wakeup (by decide) hc hblocked hopen
  exact ⟨c, hc, hblocked, hopen, hfull c hdc .refl⟩

end UndoLog.Proxy.Guard
