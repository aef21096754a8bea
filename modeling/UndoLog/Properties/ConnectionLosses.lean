import Mathlib.Data.List.Induction
import UndoLog.Proxy.Guard

/-!
# When the proxy's breaker opens

Calls one after another: each asks `allow`, and an admitted call records its outcome before
the next one asks. Between two calls the breaker is closed or open, and what it does next
follows from the outcomes recorded so far.
-/

namespace UndoLog.Proxy.Guard

variable {B : BackpressureConfig}

/-- A call that does not overlap others: when it asks, when its outcome is recorded and the
outcome. -/
structure Attempt where
  asked : ℕ
  recorded : ℕ
  result : RpcResult

/-- `allow`, and `record` if the call is admitted. -/
def Breaker.attempt (B : BackpressureConfig) (b : Breaker) (a : Attempt) : Bool × Breaker :=
  if (b.allow B a.asked).1 then
    (true, (b.allow B a.asked).2.record B a.recorded a.result.healthy)
  else (false, (b.allow B a.asked).2)

/-- A breaker and the calls it has admitted, the latest first. -/
def serve (B : BackpressureConfig) (s : Breaker × List Attempt) (a : Attempt) :
    Breaker × List Attempt :=
  ((s.1.attempt B a).2, if (s.1.attempt B a).1 then a :: s.2 else s.2)

/-- A new breaker after the calls. -/
def served (B : BackpressureConfig) (calls : List Attempt) : Breaker × List Attempt :=
  calls.foldl (serve B) (newBreaker, [])

/-- The connection losses recorded since the last healthy answer. -/
def losses (admitted : List Attempt) : ℕ :=
  (admitted.takeWhile fun a => !a.result.healthy).length

variable {a : Attempt} {b : Breaker}

theorem losses_healthy (admitted : List Attempt) (h : a.result.healthy = true) :
    losses (a :: admitted) = 0 := by
  simp [losses, h]

/-- What the fields say between two calls: a closed breaker has counted the current run of
losses, which is below the threshold; an open one has opened with the last call it admitted. -/
inductive Settled (B : BackpressureConfig) : Breaker × List Attempt → Prop
  | counting {b : Breaker} {admitted : List Attempt} (hstate : b.state = .closed)
      (hcount : b.failures = losses admitted) (hrun : losses admitted < B.breakerThreshold) :
      Settled B (b, admitted)
  | resting {b : Breaker} {a : Attempt} {admitted : List Attempt} (hstate : b.state = .open)
      (hlost : a.result.healthy = false) (hopened : b.openedAt = a.recorded) :
      Settled B (b, a :: admitted)

/-- What the next call meets. A closed breaker admits it and opens exactly if it is the
`threshold`-th loss in a row. An open breaker refuses it until the reset interval is over since the
loss that has opened it; the call it admits then closes it or opens it anew. -/
structure Decides (B : BackpressureConfig) (s : Breaker × List Attempt) (a : Attempt) : Prop where
  closed : s.1.state = .closed → (s.1.attempt B a).1 = true ∧
    (serve B s a).1.state = if a.result.healthy = false ∧ losses s.2 + 1 = B.breakerThreshold
      then .open else .closed
  opened : s.1.state = .open → ∃ last admitted, s.2 = last :: admitted ∧
    last.result.healthy = false ∧
    ((s.1.attempt B a).1 = true ↔ (last.recorded : ℤ) + B.breakerReset ≤ a.asked) ∧
    ((s.1.attempt B a).1 = false → serve B s a = s) ∧
    ((s.1.attempt B a).1 = true →
      (serve B s a).1.state = if a.result.healthy = true then .closed else .open)
  settled : s.1.state ≠ .halfOpen

theorem attempt_closed (h : b.state = .closed) (a : Attempt) :
    b.attempt B a = (true, b.record B a.recorded a.result.healthy) := by
  simp [Breaker.attempt, Breaker.allow, h]

theorem attempt_early (h : b.state = .open)
    (hearly : ¬ (a.asked : ℤ) - b.openedAt ≥ B.breakerReset) : b.attempt B a = (false, b) := by
  simp [Breaker.attempt, Breaker.allow, h, hearly]

/-- An open breaker whose reset interval is over admits the call as its probe, and the outcome
of the probe settles it. -/
theorem attempt_probe (h : b.state = .open) (hover : (a.asked : ℤ) - b.openedAt ≥ B.breakerReset) :
    b.attempt B a =
      (true, Breaker.record B a.recorded a.result.healthy
        { b with state := .halfOpen, probing := true }) := by
  simp [Breaker.attempt, Breaker.allow, h, hover]

variable {s : Breaker × List Attempt}

theorem Settled.serve (hB : 1 ≤ B.breakerThreshold) (h : Settled B s) (a : Attempt) :
    Settled B (serve B s a) := by
  cases h with
  | @counting b admitted hstate hcount hrun =>
    simp only [Guard.serve, attempt_closed hstate, if_true, Breaker.record, hstate]
    cases hhealthy : a.result.healthy with
    | true =>
      have hnone := losses_healthy admitted hhealthy
      exact .counting rfl (by rw [hnone]; rfl) (by omega)
    | false =>
      have hnext : losses (a :: admitted) = losses admitted + 1 := by simp [losses, hhealthy]
      rw [if_neg Bool.false_ne_true]
      split
      · exact .resting rfl hhealthy rfl
      · exact .counting rfl (by rw [hnext, hcount]; rfl) (by omega)
  | @resting b last admitted hstate hlost hopened =>
    by_cases hover : (a.asked : ℤ) - b.openedAt ≥ B.breakerReset
    · simp only [Guard.serve, attempt_probe hstate hover, if_true, Breaker.record]
      cases hhealthy : a.result.healthy with
      | true =>
        have hnone := losses_healthy (last :: admitted) hhealthy
        exact .counting rfl (by rw [hnone]; rfl) (by omega)
      | false => exact .resting rfl hhealthy rfl
    · simp only [Guard.serve, attempt_early hstate hover, Bool.false_eq_true, if_false]
      exact .resting hstate hlost hopened

theorem settled_served (hB : 1 ≤ B.breakerThreshold) (calls : List Attempt) :
    Settled B (served B calls) := by
  induction calls using List.reverseRecOn with
  | nil => exact .counting rfl rfl hB
  | append_singleton calls a ih =>
    rw [served, List.foldl_concat]
    exact ih.serve hB a

theorem Settled.decides (h : Settled B s) (a : Attempt) : Decides B s a := by
  cases h with
  | @counting b admitted hstate hcount hrun =>
    refine ⟨fun _ => ⟨by rw [attempt_closed hstate], ?_⟩,
      fun hopen => (by rw [hstate] at hopen; cases hopen), by rw [hstate]; rintro ⟨⟩⟩
    simp only [Guard.serve, attempt_closed hstate, Breaker.record, hstate]
    cases a.result.healthy with
    | true => simp
    | false =>
      rw [if_neg Bool.false_ne_true]
      by_cases hlast : b.failures + 1 ≥ B.breakerThreshold
      · rw [if_pos hlast, if_pos ⟨rfl, by omega⟩]
      · rw [if_neg hlast, if_neg (by omega)]
  | @resting b last admitted hstate hlost hopened =>
    refine ⟨fun hclosed => (by rw [hstate] at hclosed; cases hclosed),
      fun _ => ⟨last, admitted, rfl, hlost, ?_⟩, by rw [hstate]; rintro ⟨⟩⟩
    by_cases hover : (a.asked : ℤ) - b.openedAt ≥ B.breakerReset
    · simp only [Guard.serve, attempt_probe hstate hover, Breaker.record]
      refine ⟨⟨fun _ => by omega, fun _ => trivial⟩, by simp, fun _ => ?_⟩
      split <;> rfl
    · simp only [Guard.serve, attempt_early hstate hover]
      exact ⟨⟨by simp, fun h => absurd (by omega) hover⟩, by simp, by simp⟩

/-- Over any sequence of calls that do not overlap, the breaker opens exactly on a run of
connection losses, stays open for the reset interval and is settled by the next call. -/
theorem breaker_opens_on_losses (B : BackpressureConfig) (hB : 1 ≤ B.breakerThreshold)
    (calls : List Attempt) (a : Attempt) : Decides B (served B calls) a :=
  (settled_served hB calls).decides a

/-- A breaker with threshold two after one loss. -/
theorem second_loss_opens : 1 ≤ (2 : ℤ) ∧
    Decides ⟨0, 0, 0, 2, 5⟩ (served ⟨0, 0, 0, 2, 5⟩ [⟨0, 1, .failed (.status .unavailable "")⟩])
      ⟨2, 3, .failed (.status .unknown "")⟩ :=
  ⟨by decide, breaker_opens_on_losses _ (by decide) _ _⟩

end UndoLog.Proxy.Guard
