import UndoLog.Proxy.RateLimiter

/-!
# Requests of a key stay within its rate

For every window of time the requests of an API key that the limiter lets through are bounded
by the burst and by what the rate adds over the window. A client that waits as long as it is
told is let through.
-/

namespace UndoLog.Proxy

open Metering RateLimiter

variable {l : RateLimiter} {identity : String} {calls : List MeteredCall}

theorem RateLimiter.Ready.allowed_window_le {start first last : ℚ} (hrps : 0 < l.rps)
    (hburst : 0 ≤ l.burst) (h : l.Ready identity start)
    (hsorted : (start :: timesOf identity calls).Pairwise (· ≤ ·)) (hwindow : first ≤ last) :
    ((allowedTimes identity l calls).countP (fun t => first ≤ t ∧ t ≤ last) : ℚ) ≤
      l.burst + (last - first) * l.rps := by
  obtain ⟨hstart, hrest⟩ := List.pairwise_cons.mp hsorted
  cases hb : l.buckets identity with
  | some b =>
    obtain ⟨hwithin, hlast⟩ := h b hb
    rw [allowedTimes_of_bucket calls hrps (.inl hb)]
    exact (Bucket.drawn_window_le hrps.le hwindow hwithin hrest
      fun t ht => hlast.trans (hstart t ht)).1
  | none =>
    cases htimes : timesOf identity calls with
    | nil =>
      have hadded : 0 ≤ (last - first) * l.rps := mul_nonneg (by linarith) hrps.le
      rw [allowedTimes_of_none htimes, List.countP_nil, Nat.cast_zero]
      linarith
    | cons t rest =>
      have hfirst : (timesOf identity calls).head? = some t := by rw [htimes]; rfl
      rw [allowedTimes_of_bucket calls hrps (.inr ⟨hb, t, hfirst, rfl⟩)]
      rw [htimes] at hrest ⊢
      refine (Bucket.drawn_window_le hrps.le hwindow (.full hburst t) hrest ?_).1
      exact List.forall_mem_cons.mpr ⟨le_rfl, (List.pairwise_cons.mp hrest).1⟩

/-- A call that is refused succeeds after the wait it is given, if the key is not used in
between. -/
theorem RateLimiter.Ready.allowed_after_wait {now later : ℚ} (hrps : 0 < l.rps)
    (hburst : 1 ≤ l.burst) (h : l.Ready identity now)
    (hrefused : (l.allow identity now).1.2 = false)
    (hothers : ∀ call ∈ calls, call.identity ≠ identity)
    (hlater : now + (l.allow identity now).1.1 ≤ later) :
    ((((l.allow identity now).2.after calls).allow identity later).1.2) = true := by
  obtain ⟨hsame, hsize⟩ := after_limits (l := (l.allow identity now).2) calls
  rw [(allow_limits).1] at hsame
  rw [(allow_limits).2] at hsize
  obtain ⟨-, hat⟩ := h.bucketFor hrps.le (zero_le_one.trans hburst)
  have hempty : (l.bucketFor identity now).holds = false := (allow_allowed hrps).symm.trans hrefused
  have hbucket : ((l.allow identity now).2.after calls).buckets identity =
      some (l.bucketFor identity now) := by
    rw [after_others hothers, allow_bucket hrps, Bucket.take, if_neg (by simp [hempty])]
  rw [allow_wait hrps hrefused] at hlater
  have hwait : (1 - (l.bucketFor identity now).tokens) / l.rps ≤
      (waitFor l.rps (l.bucketFor identity now) : ℚ) :=
    (Int.le_ceil _).trans (Int.cast_le.mpr (le_max_right _ _))
  rw [allow_allowed (by rw [hsame]; exact hrps), RateLimiter.bucketFor, hbucket]
  simp only [hsame, hsize]
  exact Bucket.holds_after_wait hrps hburst hwait (by rw [hat]; exact hlater) hempty

theorem RateLimiter.exists_start (hsorted : (timesOf identity calls).Pairwise (· ≤ ·)) (now : ℚ) :
    ∃ start, start ≤ now ∧ ∀ t ∈ timesOf identity calls, start ≤ t := by
  cases htimes : timesOf identity calls with
  | nil =>
    refine ⟨now, le_rfl, fun t ht => ?_⟩
    cases ht
  | cons first rest =>
    rw [htimes] at hsorted
    refine ⟨min first now, min_le_right _ _, List.forall_mem_cons.mpr ⟨min_le_left _ _, ?_⟩⟩
    exact fun t ht => (min_le_left _ _).trans ((List.pairwise_cons.mp hsorted).1 t ht)

/-- Whatever other keys do, the requests of a key that pass in a window of `length` seconds are
at most the burst plus the rate times the length, and a refused request passes after its wait. -/
theorem requests_within_rate (rps : ℚ) (hrps : 0 < rps) (burst : ℕ) (hburst : 1 ≤ burst)
    (identity : String) (calls : List MeteredCall)
    (hsorted : (timesOf identity calls).Pairwise (· ≤ ·)) : (∀ first length : ℚ, 0 ≤ length →
      ((allowedTimes identity (new rps burst) calls).countP
        (fun t => first ≤ t ∧ t ≤ first + length) : ℚ) ≤ burst + rps * length) ∧
    (∀ (now : ℚ), (∀ t ∈ timesOf identity calls, t ≤ now) →
      (((new rps burst).after calls).allow identity now).1.2 = false →
      ∀ (others : List MeteredCall) (later : ℚ), (∀ call ∈ others, call.identity ≠ identity) →
        now + (((new rps burst).after calls).allow identity now).1.1 ≤ later →
        (((((new rps burst).after calls).allow identity now).2.after others).allow
          identity later).1.2 = true) := by
  have hone : (1 : ℚ) ≤ burst := by exact_mod_cast hburst
  have hready : ∀ start, (new rps burst).Ready identity start := .new rps burst
  constructor
  · intro first length hlength
    obtain ⟨start, -, hstart⟩ := exists_start hsorted first
    have hwindow : first ≤ first + length := by linarith
    calc ((allowedTimes identity (new rps burst) calls).countP
          (fun t => first ≤ t ∧ t ≤ first + length) : ℚ)
        ≤ burst + (first + length - first) * rps :=
          (hready start).allowed_window_le hrps (zero_le_one.trans hone)
            (List.pairwise_cons.mpr ⟨hstart, hsorted⟩) hwindow
      _ = burst + rps * length := by ring
  · intro now hnow hrefused others later hothers hlater
    obtain ⟨hsame, hsize⟩ := after_limits (l := new rps burst) calls
    obtain ⟨start, hle, hstart⟩ := exists_start hsorted now
    have hbetween : (start :: timesOf identity calls ++ [now]).Pairwise (· ≤ ·) := by
      refine List.pairwise_cons.mpr ⟨?_, List.pairwise_append.mpr ⟨hsorted, by simp, ?_⟩⟩
      · intro t ht
        rcases List.mem_append.mp ht with ht | ht
        · exact hstart t ht
        · exact (List.mem_singleton.mp ht) ▸ hle
      · intro t ht t' ht'
        exact (List.mem_singleton.mp ht') ▸ hnow t ht
    have hbefore := (hready start).after hrps (zero_le_one.trans hone) hbetween
    refine hbefore.allowed_after_wait ?_ ?_ hrefused hothers hlater
    · rw [hsame]
      exact hrps
    · rw [hsize]
      exact hone

/-- Three calls of one key and one of another within half a second. -/
def quickCalls : List MeteredCall :=
  [⟨"key", 0⟩, ⟨"other", 1 / 10⟩, ⟨"key", 1 / 5⟩, ⟨"key", 2 / 5⟩]

/-- At one request per second the key gets one of them through, and another after the wait. -/
theorem quickCalls_within_rate :
    ((allowedTimes "key" (new 1 1) quickCalls).countP (fun t => 0 ≤ t ∧ t ≤ 0 + 10) : ℚ) ≤
      (1 : ℕ) + 1 * 10 ∧ allowedTimes "key" (new 1 1) quickCalls = [0] ∧
    (((new 1 1).after quickCalls).allow "key" (1 / 2)).1 = (1, false) ∧
    (((((new 1 1).after quickCalls).allow "key" (1 / 2)).2.after [⟨"other", 1⟩]).allow
      "key" (3 / 2)).1.2 = true := by
  have hsorted : (timesOf "key" quickCalls).Pairwise (· ≤ ·) := by decide +kernel
  have hpassed : allowedTimes "key" (new 1 1) quickCalls = [0] := by decide +kernel
  have hrefused : (((new 1 1).after quickCalls).allow "key" (1 / 2)).1 = (1, false) := by
    decide +kernel
  obtain ⟨hwindow, hwait⟩ :=
    requests_within_rate 1 zero_lt_one 1 le_rfl "key" quickCalls hsorted
  refine ⟨hwindow 0 10 (by norm_num), hpassed, hrefused, ?_⟩
  refine hwait (1 / 2) (by decide +kernel) (by rw [hrefused]) _ _ (by decide +kernel) ?_
  rw [hrefused]
  norm_num

end UndoLog.Proxy
