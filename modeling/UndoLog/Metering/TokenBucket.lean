import Mathlib.Algebra.Order.Field.Basic
import Mathlib.Tactic.Linarith
import Mathlib.Tactic.Ring

/-!
# Token buckets

A bucket holds a bounded number of tokens and is refilled at a constant rate. The refill is
lazy: it happens when a token is asked for, from the time of the last refill. Over any window
of time the tokens that leave a bucket are bounded by its size and by what the window adds.
-/

namespace Metering

variable {K : Type} [Field K] [LinearOrder K]

/-- The tokens of a bucket and the time of its last refill. -/
structure Bucket (K : Type) where
  tokens : K
  refilledAt : K

/-- A bucket that is full. -/
def Bucket.full (size now : K) : Bucket K where
  tokens := size
  refilledAt := now

/-- Add what has accrued since the last refill. Time that does not advance adds nothing. -/
def Bucket.refill (rate size now : K) (b : Bucket K) : Bucket K :=
  if b.refilledAt < now then
    { tokens := min size (b.tokens + (now - b.refilledAt) * rate), refilledAt := now }
  else b

/-- Whether a token is there. -/
def Bucket.holds (b : Bucket K) : Bool := 1 ≤ b.tokens

/-- Take a token if there is one. -/
def Bucket.take (b : Bucket K) : Bucket K :=
  if b.holds then { b with tokens := b.tokens - 1 } else b

/-- Refill and then take a token if there is one. -/
def Bucket.draw (rate size now : K) (b : Bucket K) : Bucket K := (b.refill rate size now).take

/-- The times at which a token leaves the bucket, when it is asked for at the given times. -/
def Bucket.drawn (rate size : K) : Bucket K → List K → List K
  | _, [] => []
  | b, now :: rest =>
    if (b.refill rate size now).holds then now :: (b.draw rate size now).drawn rate size rest
    else (b.draw rate size now).drawn rate size rest

/-- A bucket is neither overdrawn nor overfull. -/
structure Bucket.Within (size : K) (b : Bucket K) : Prop where
  nonneg : 0 ≤ b.tokens
  le_size : b.tokens ≤ size

variable {rate size now : K} {b : Bucket K}

theorem Bucket.Within.full (hsize : 0 ≤ size) (now : K) : (Bucket.full size now).Within size :=
  ⟨hsize, le_rfl⟩

@[simp] theorem Bucket.refilledAt_take : b.take.refilledAt = b.refilledAt := by
  unfold Bucket.take
  split <;> rfl

/-- Once a bucket has been asked at a time, it is refilled up to it. -/
theorem Bucket.refilledAt_refill (h : b.refilledAt ≤ now) :
    (b.refill rate size now).refilledAt = now := by
  unfold Bucket.refill
  split
  · rfl
  · next hge => exact le_antisymm h (not_lt.mp hge)

theorem Bucket.refilledAt_draw (h : b.refilledAt ≤ now) :
    (b.draw rate size now).refilledAt = now := by
  unfold Bucket.draw
  rw [refilledAt_take, refilledAt_refill h]

/-- What a refill adds at most. -/
theorem Bucket.tokens_refill_le (h : b.refilledAt ≤ now) :
    (b.refill rate size now).tokens ≤ b.tokens + (now - b.refilledAt) * rate := by
  unfold Bucket.refill
  split
  · exact min_le_right _ _
  · next hge =>
    have heq : now = b.refilledAt := le_antisymm (not_lt.mp hge) h
    rw [heq, sub_self, zero_mul, add_zero]

/-- A token that is taken is paid for. -/
theorem Bucket.tokens_take : b.take.tokens = b.tokens - if b.holds then 1 else 0 := by
  unfold Bucket.take
  split
  · rfl
  · exact (sub_zero _).symm

/-- Tokens leave at the times at which they are asked for. -/
theorem Bucket.drawn_sublist (b : Bucket K) (times : List K) :
    (b.drawn rate size times).Sublist times := by
  induction times generalizing b with
  | nil => exact List.Sublist.refl _
  | cons now rest ih =>
    rw [Bucket.drawn]
    split
    · exact (ih _).cons_cons now
    · exact (ih _).cons now

/-- The first request adds itself to a count of tokens, if it gets one. -/
theorem Bucket.countP_drawn_cons (p : K → Bool) (b : Bucket K) (rest : List K) :
    ((b.drawn rate size (now :: rest)).countP p : K) =
      ((b.draw rate size now).drawn rate size rest).countP p +
        if p now ∧ (b.refill rate size now).holds then 1 else 0 := by
  rw [Bucket.drawn]
  by_cases hholds : (b.refill rate size now).holds <;> cases hp : p now <;> simp [hholds, hp]

/-! ## Bounds on what leaves a bucket -/

variable [IsStrictOrderedRing K]

theorem Bucket.Within.refill (hrate : 0 ≤ rate) (h : b.Within size) :
    (b.refill rate size now).Within size := by
  unfold Bucket.refill
  split
  · next hlt =>
    have hadded : 0 ≤ (now - b.refilledAt) * rate := mul_nonneg (by linarith) hrate
    constructor
    · exact le_min (h.nonneg.trans h.le_size) (add_nonneg h.nonneg hadded)
    · exact min_le_left _ _
  · exact h

theorem Bucket.Within.take (h : b.Within size) : b.take.Within size := by
  unfold Bucket.take
  split
  · next hholds =>
    have hone : 1 ≤ b.tokens := of_decide_eq_true hholds
    have hle := h.le_size
    constructor
    · change 0 ≤ b.tokens - 1
      linarith
    · change b.tokens - 1 ≤ size
      linarith
  · exact h

theorem Bucket.Within.draw (hrate : 0 ≤ rate) (h : b.Within size) :
    (b.draw rate size now).Within size :=
  (h.refill hrate).take

/-- In a window of time no more tokens leave than a full bucket holds and what accrues in the
window. Once the window is open, the tokens of the bucket pay for what leaves it. -/
theorem Bucket.drawn_window_le (hrate : 0 ≤ rate) {first last : K} (hwindow : first ≤ last)
    {times : List K} {b : Bucket K} (hb : b.Within size) (hsorted : times.Pairwise (· ≤ ·))
    (hfrom : ∀ t ∈ times, b.refilledAt ≤ t) :
    ((b.drawn rate size times).countP (fun t => first ≤ t ∧ t ≤ last) : K) ≤
        size + (last - first) * rate ∧
      (first ≤ b.refilledAt → b.refilledAt ≤ last →
        ((b.drawn rate size times).countP (fun t => first ≤ t ∧ t ≤ last) : K) ≤
          b.tokens + (last - b.refilledAt) * rate) := by
  have hadded : ∀ {t}, t ≤ last → 0 ≤ (last - t) * rate := fun ht =>
    mul_nonneg (sub_nonneg.mpr ht) hrate
  have hnonneg := hb.nonneg
  have hcap := hb.le_size
  induction times generalizing b with
  | nil =>
    rw [Bucket.drawn, List.countP_nil, Nat.cast_zero]
    exact ⟨by linarith [hadded hwindow], fun _ hlast => by linarith [hadded hlast]⟩
  | cons now rest ih =>
    have hnow : b.refilledAt ≤ now := hfrom now (List.mem_cons_self)
    obtain ⟨hle, hrest⟩ := List.pairwise_cons.mp hsorted
    have hat : (b.draw rate size now).refilledAt = now := refilledAt_draw hnow
    have hdrawn : (b.draw rate size now).Within size := hb.draw hrate
    obtain ⟨hall, hopen⟩ := ih hdrawn hrest (by rw [hat]; exact hle) hdrawn.nonneg hdrawn.le_size
    rw [hat] at hopen
    rw [countP_drawn_cons]
    by_cases hin : first ≤ now ∧ now ≤ last
    · have hcount := hopen hin.1 hin.2
      have hpaid : (b.draw rate size now).tokens = _ := tokens_take
      have hrefill : (b.refill rate size now).tokens ≤ _ := tokens_refill_le hnow
      have hfull := (hb.refill hrate : (b.refill rate size now).Within size).le_size
      have hshorter : (last - now) * rate ≤ (last - first) * rate :=
        mul_le_mul_of_nonneg_right (by linarith) hrate
      have hsplit : (now - b.refilledAt) * rate + (last - now) * rate =
          (last - b.refilledAt) * rate := by ring
      simp only [hin, and_self, decide_true, true_and]
      exact ⟨by linarith, fun _ _ => by linarith⟩
    · simp only [hin, decide_false, Bool.false_eq_true, false_and, if_false, add_zero]
      refine ⟨hall, fun hfirst hlast => ?_⟩
      -- the window is over, and all remaining times lie behind it
      have hgt : last < now := not_le.mp fun hlate => hin ⟨hfirst.trans hnow, hlate⟩
      have hnone : ((b.draw rate size now).drawn rate size rest).countP
          (fun t => first ≤ t ∧ t ≤ last) = 0 := by
        refine List.countP_eq_zero.mpr fun t ht => ?_
        have hlater := hgt.trans_le (hle t ((drawn_sublist _ _).subset ht))
        simp [hlater]
      rw [hnone, Nat.cast_zero]
      linarith [hadded hlast]

/-- A bucket without a token has one after the time that the missing part takes to accrue. -/
theorem Bucket.holds_after_wait (hrate : 0 < rate) (hsize : 1 ≤ size) {wait later : K}
    (hwait : (1 - b.tokens) / rate ≤ wait) (hlater : b.refilledAt + wait ≤ later)
    (hempty : b.holds = false) : (b.refill rate size later).holds = true := by
  have hmissing : 0 < 1 - b.tokens := by
    have hlt : ¬1 ≤ b.tokens := of_decide_eq_false hempty
    linarith
  have hpositive : 0 < (1 - b.tokens) / rate := div_pos hmissing hrate
  have haccrued : 1 - b.tokens ≤ (later - b.refilledAt) * rate := by
    refine (div_le_iff₀ hrate).mp ?_
    linarith
  unfold Bucket.refill
  rw [if_pos (by linarith)]
  refine decide_eq_true (le_min hsize ?_)
  linarith

end Metering
