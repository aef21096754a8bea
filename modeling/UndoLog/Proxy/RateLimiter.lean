import Mathlib.Data.Rat.Floor
import UndoLog.Metering.TokenBucket

/-!
# The rate limiter of a proxy

The limiter is a plugin that meters every API key with its own token bucket. Rates, tokens and
times are exact; times are in seconds.
-/

namespace UndoLog.Proxy

open Metering

/-- `rateLimiter`: the limits and one bucket for each key that has been seen. -/
structure RateLimiter where
  rps : ℚ
  burst : ℚ
  buckets : String → Option (Bucket ℚ)

/-- A call of `allow`. -/
structure MeteredCall where
  identity : String
  now : ℚ

variable {calls : List MeteredCall} {last : ℚ}

namespace RateLimiter

/-- `NewRateLimiter`. -/
def new (rps : ℚ) (burst : ℕ) : RateLimiter where
  rps := rps
  burst := burst
  buckets := fun _ => none

/-- The bucket of a key when it is asked: full for a new key, else refilled. -/
def bucketFor (l : RateLimiter) (identity : String) (now : ℚ) : Bucket ℚ :=
  match l.buckets identity with
  | none => .full l.burst now
  | some b => b.refill l.rps l.burst now

/-- The whole seconds until a bucket has a token. -/
def waitFor (rps : ℚ) (b : Bucket ℚ) : ℤ := max 1 ⌈(1 - b.tokens) / rps⌉

/-- `allow`: the wait of a refused call, and whether the call is allowed. -/
def allow (l : RateLimiter) (identity : String) (now : ℚ) : (ℤ × Bool) × RateLimiter :=
  if l.rps ≤ 0 then ((0, true), l)
  else
    let b := l.bucketFor identity now
    if b.holds then
      ((0, true), { l with buckets := Function.update l.buckets identity (some b.take) })
    else
      ((waitFor l.rps b, false), { l with buckets := Function.update l.buckets identity (some b) })

/-- The limiter after a sequence of calls. -/
def after (l : RateLimiter) (calls : List MeteredCall) : RateLimiter :=
  calls.foldl (fun l call => (l.allow call.identity call.now).2) l

/-- The times of the calls of a key that are allowed. -/
def allowedTimes (identity : String) : RateLimiter → List MeteredCall → List ℚ
  | _, [] => []
  | l, call :: rest =>
    let ((_, allowed), l) := l.allow call.identity call.now
    if call.identity = identity ∧ allowed = true then call.now :: allowedTimes identity l rest
    else allowedTimes identity l rest

/-- The times of all calls of a key. -/
def timesOf (identity : String) (calls : List MeteredCall) : List ℚ :=
  (calls.filter (·.identity = identity)).map (·.now)

/-! ## One call -/

variable {l : RateLimiter} {identity other : String} {now : ℚ}

theorem allow_limits : (l.allow identity now).2.rps = l.rps ∧
    (l.allow identity now).2.burst = l.burst := by
  unfold allow
  split
  · exact ⟨rfl, rfl⟩
  · dsimp only
    split <;> exact ⟨rfl, rfl⟩

/-- A call leaves the buckets of the other keys alone. -/
theorem allow_other (h : other ≠ identity) :
    (l.allow other now).2.buckets identity = l.buckets identity := by
  unfold allow
  split
  · rfl
  · dsimp only
    split <;> exact Function.update_of_ne h.symm _ _

/-- A call draws from the bucket of its key. -/
theorem allow_bucket (hrps : 0 < l.rps) :
    (l.allow identity now).2.buckets identity = some (l.bucketFor identity now).take := by
  unfold allow
  rw [if_neg (not_le.mpr hrps)]
  dsimp only
  split
  · exact Function.update_self _ _ _
  · next hempty =>
    unfold Bucket.take
    rw [if_neg hempty]
    exact Function.update_self _ _ _

/-- It is allowed if the bucket holds a token. -/
theorem allow_allowed (hrps : 0 < l.rps) :
    (l.allow identity now).1.2 = (l.bucketFor identity now).holds := by
  unfold allow
  rw [if_neg (not_le.mpr hrps)]
  dsimp only
  split
  · next hholds => exact hholds.symm
  · next hempty => exact (Bool.eq_false_iff.mpr hempty).symm

theorem allow_wait (hrps : 0 < l.rps) (h : (l.allow identity now).1.2 = false) :
    (l.allow identity now).1.1 = waitFor l.rps (l.bucketFor identity now) := by
  rw [allow_allowed hrps] at h
  unfold allow
  rw [if_neg (not_le.mpr hrps)]
  dsimp only
  rw [if_neg (by simp [h])]

/-! ## Runs of calls -/

theorem after_limits (calls : List MeteredCall) :
    (l.after calls).rps = l.rps ∧ (l.after calls).burst = l.burst := by
  induction calls generalizing l with
  | nil => exact ⟨rfl, rfl⟩
  | cons call rest ih =>
    have hstep : (l.allow call.identity call.now).2.rps = l.rps ∧
        (l.allow call.identity call.now).2.burst = l.burst := allow_limits
    have hrest := ih (l := (l.allow call.identity call.now).2)
    exact ⟨hrest.1.trans hstep.1, hrest.2.trans hstep.2⟩

theorem after_others (h : ∀ call ∈ calls, call.identity ≠ identity) :
    (l.after calls).buckets identity = l.buckets identity := by
  induction calls generalizing l with
  | nil => rfl
  | cons call rest ih =>
    obtain ⟨hcall, hrest⟩ := List.forall_mem_cons.mp h
    exact (ih hrest).trans (allow_other hcall)

@[simp] theorem timesOf_cons_self (now : ℚ) (rest : List MeteredCall) :
    timesOf identity (⟨identity, now⟩ :: rest) = now :: timesOf identity rest := by
  simp [timesOf]

theorem timesOf_cons_other (h : other ≠ identity) (now : ℚ) (rest : List MeteredCall) :
    timesOf identity (⟨other, now⟩ :: rest) = timesOf identity rest := by
  simp [timesOf, h]

/-- The bucket of a key is in order and was last asked at the given time at the latest. -/
def Ready (identity : String) (last : ℚ) (l : RateLimiter) : Prop :=
  ∀ b ∈ l.buckets identity, b.Within l.burst ∧ b.refilledAt ≤ last

theorem Ready.new (rps : ℚ) (burst : ℕ) (last : ℚ) : (new rps burst).Ready identity last := by
  intro b hb
  cases hb

theorem Ready.bucketFor (hrps : 0 ≤ l.rps) (hburst : 0 ≤ l.burst) (h : l.Ready identity now) :
    (l.bucketFor identity now).Within l.burst ∧ (l.bucketFor identity now).refilledAt = now := by
  unfold RateLimiter.bucketFor
  split
  · exact ⟨.full hburst now, rfl⟩
  · next b hb =>
    obtain ⟨hwithin, hlast⟩ := h b hb
    exact ⟨hwithin.refill hrps, Bucket.refilledAt_refill hlast⟩

theorem Ready.allow (hrps : 0 < l.rps) (hburst : 0 ≤ l.burst) (h : l.Ready identity now) :
    (l.allow identity now).2.Ready identity now := by
  obtain ⟨hwithin, hlast⟩ := h.bucketFor hrps.le hburst
  intro b hb
  rw [allow_bucket hrps] at hb
  obtain rfl := Option.some.inj hb
  rw [allow_limits.2]
  exact ⟨hwithin.take, by rw [Bucket.refilledAt_take, hlast]⟩

theorem Ready.allow_other (hother : other ≠ identity) (h : l.Ready identity last) :
    (l.allow other now).2.Ready identity last := by
  intro b hb
  rw [RateLimiter.allow_other hother] at hb
  rw [allow_limits.2]
  exact h b hb

theorem Ready.mono {last' : ℚ} (hle : last ≤ last') (h : l.Ready identity last) :
    l.Ready identity last' :=
  fun b hb => ⟨(h b hb).1, (h b hb).2.trans hle⟩

theorem Ready.after {first : ℚ} (hrps : 0 < l.rps)
    (hburst : 0 ≤ l.burst) (h : l.Ready identity first)
    (hsorted : (first :: timesOf identity calls ++ [last]).Pairwise (· ≤ ·)) :
    (l.after calls).Ready identity last := by
  induction calls generalizing l first with
  | nil =>
    refine h.mono ?_
    simpa [timesOf] using hsorted
  | cons call rest ih =>
    obtain ⟨key, now⟩ := call
    obtain ⟨hsame, hsize⟩ : (l.allow key now).2.rps = l.rps ∧
        (l.allow key now).2.burst = l.burst := allow_limits
    by_cases hkey : key = identity
    · subst hkey
      rw [timesOf_cons_self] at hsorted
      obtain ⟨hfirst, hrest⟩ := List.pairwise_cons.mp hsorted
      have hready : l.Ready key now := h.mono (hfirst now (by simp))
      exact ih (by rw [hsame]; exact hrps) (by rw [hsize]; exact hburst)
        (hready.allow hrps hburst) hrest
    · rw [timesOf_cons_other hkey] at hsorted
      exact ih (by rw [hsame]; exact hrps) (by rw [hsize]; exact hburst) (h.allow_other hkey)
        hsorted

/-- The calls of a key that are allowed are those that get a token from its bucket, which is a
full one if the key has not been used before. -/
theorem allowedTimes_of_bucket {b : Bucket ℚ} (calls : List MeteredCall) (hrps : 0 < l.rps)
    (hb : l.buckets identity = some b ∨ l.buckets identity = none ∧
      ∃ first, (timesOf identity calls).head? = some first ∧ b = .full l.burst first) :
    allowedTimes identity l calls = b.drawn l.rps l.burst (timesOf identity calls) := by
  induction calls generalizing l b with
  | nil => rfl
  | cons call rest ih =>
    obtain ⟨key, now⟩ := call
    obtain ⟨hsame, hsize⟩ : (l.allow key now).2.rps = l.rps ∧
        (l.allow key now).2.burst = l.burst := allow_limits
    have hrps' : 0 < (l.allow key now).2.rps := by
      rw [hsame]
      exact hrps
    by_cases hkey : key = identity
    · subst hkey
      have hfor : l.bucketFor key now = b.refill l.rps l.burst now := by
        rcases hb with hb | ⟨hnone, first, hfirst, rfl⟩
        · simp only [RateLimiter.bucketFor, hb]
        · rw [timesOf_cons_self] at hfirst
          cases hfirst
          simp only [RateLimiter.bucketFor, hnone]
          exact (if_neg (lt_irrefl now)).symm
      have hnext : (l.allow key now).2.buckets key = some (b.draw l.rps l.burst now) := by
        rw [allow_bucket hrps, hfor]
        rfl
      have hrest := ih hrps' (.inl hnext)
      rw [hsame, hsize] at hrest
      rw [timesOf_cons_self, Bucket.drawn]
      simp only [allowedTimes, allow_allowed hrps, hfor, true_and]
      rw [hrest]
    · rw [timesOf_cons_other hkey] at hb ⊢
      rw [← allow_other hkey, ← hsize] at hb
      have hrest := ih hrps' hb
      rw [hsame, hsize] at hrest
      simp only [allowedTimes, hkey, false_and, if_false]
      exact hrest

theorem allowedTimes_of_none (h : timesOf identity calls = []) :
    allowedTimes identity l calls = [] := by
  induction calls generalizing l with
  | nil => rfl
  | cons call rest ih =>
    obtain ⟨key, now⟩ := call
    have hkey : key ≠ identity := by
      rintro rfl
      rw [timesOf_cons_self] at h
      cases h
    rw [timesOf_cons_other hkey] at h
    simp only [allowedTimes, hkey, false_and, if_false]
    exact ih h

end RateLimiter

end UndoLog.Proxy
