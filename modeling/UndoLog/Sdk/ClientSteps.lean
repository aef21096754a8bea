import Mathlib.Algebra.Group.Nat.Defs
import Mathlib.Logic.Function.Basic
import Mathlib.Logic.Relation

/-!
# Step indices of the TypeScript client

A call without a step index draws one from a counter: that of the session object whose scope it
is made in, whatever session it names, and otherwise the client's own counter for the session it
names. Calls under one session id wait for each other in the order in which they are made.
-/

namespace UndoLog.TypeScript

/-- A counter: `#stepIndex` of a session object, or the client's entry for a session id. -/
inductive Counter where
  | session (object : ℕ)
  | client (sessionId : String)
deriving DecidableEq

/-- A call of `intercept` that omits `stepIndex`, by the order in which they are made. `scope`
is the session object whose scope it is made in. -/
structure Call where
  number : ℕ
  sessionId : String
  scope : Option ℕ
deriving DecidableEq

/-- The counter that a call draws from. -/
def Call.counter (c : Call) : Counter :=
  match c.scope with
  | some object => .session object
  | none => .client c.sessionId

/-- A client and its session objects. `waiting` are the calls that wait for others, `running` the
session ids whose mutex is held, and `sent` the calls that have sent their step index. -/
structure Client where
  counters : Counter → ℕ
  made : ℕ
  waiting : List Call
  running : List String
  sent : List (Call × ℕ)

/-- A new client. The session objects may have been used before. -/
def Client.new (sessions : ℕ → ℕ) : Client where
  counters
    | .session object => sessions object
    | .client _ => 0
  made := 0
  waiting := []
  running := []
  sent := []

/-- `Number.MAX_SAFE_INTEGER` -/
def maxSafeInteger : ℕ := 2 ^ 53 - 1

/-- `claimStepIndex` throws. -/
def Client.exhausted (s : Client) (c : Call) : Bool :=
  c.scope.isSome && s.counters c.counter ≥ maxSafeInteger

/-- `n + 1` in doubles, for `n` up to 2⁵³, where adding one gives 2⁵³ again. -/
def addOne (n : ℕ) : ℕ := if n < 2 ^ 53 then n + 1 else n

/-- `#interceptInner` up to the request. A call whose signature cannot be computed sends none. -/
def Client.start (s : Client) (c : Call) (waiting : List Call) (signed : Bool) : Client :=
  if s.exhausted c then { s with waiting, running := c.sessionId :: s.running }
  else { s with
    counters := Function.update s.counters c.counter (addOne (s.counters c.counter))
    waiting
    running := c.sessionId :: s.running
    sent := if signed then s.sent ++ [(c, s.counters c.counter)] else s.sent }

/-- A step of the event loop. A call starts once the calls under its session id that were made
before it have settled. -/
inductive Step (guard : Client → Call → Prop) (s : Client) : Client → Prop
  | call (sessionId : String) (scope : Option ℕ) : Step guard s { s with
      waiting := s.waiting ++ [⟨s.made, sessionId, scope⟩]
      made := s.made + 1 }
  | start {before after : List Call} {c : Call} (h : s.waiting = before ++ c :: after)
      (hfirst : ∀ d ∈ before, d.sessionId ≠ c.sessionId) (hfree : c.sessionId ∉ s.running)
      (hguard : guard s c) (signed : Bool) : Step guard s (s.start c (before ++ after) signed)
  | settle (sessionId : String) : Step guard s { s with running := s.running.erase sessionId }

/-- Steps whose starting calls all meet a condition. -/
abbrev Run (guard : Client → Call → Prop) : Client → Client → Prop :=
  Relation.ReflTransGen (Step guard)

/-- A call draws from the counter that all earlier requests under its session id have. -/
def OneCounter (s : Client) (c : Call) : Prop :=
  ∀ e ∈ s.sent, e.1.sessionId = c.sessionId → e.1.counter = c.counter

/-- Adding one changes the counter of a call. -/
def Client.Advances (s : Client) (c : Call) : Prop := s.counters c.counter < 2 ^ 53

/-- Within a session id the indices increase with the order of the calls. -/
def Increasing (s : Client) : Prop :=
  ∀ e ∈ s.sent, ∀ e' ∈ s.sent, e.1.sessionId = e'.1.sessionId → e.1.number < e'.1.number →
    e.2 < e'.2

/-- Calls wait in the order in which they are made, after those under their session id that
have sent, and what was drawn from a counter is below it. -/
structure Ordered (s : Client) : Prop where
  waiting : s.waiting.Pairwise fun c d => c.number < d.number
  made : ∀ c ∈ s.waiting, c.number < s.made
  sent_made : ∀ e ∈ s.sent, e.1.number < s.made
  sent : ∀ e ∈ s.sent, ∀ c ∈ s.waiting, e.1.sessionId = c.sessionId → e.1.number < c.number
  drawn : ∀ e ∈ s.sent, e.2 < s.counters e.1.counter
  increasing : Increasing s

variable {s s' : Client}

theorem Ordered.call (h : Ordered s) (sessionId : String) (scope : Option ℕ) : Ordered { s with
    waiting := s.waiting ++ [⟨s.made, sessionId, scope⟩]
    made := s.made + 1 } := by
  refine ⟨?_, ?_, fun e he => Nat.lt_succ_of_lt (h.sent_made e he), fun e he => ?_, h.drawn,
    h.increasing⟩
  · refine List.pairwise_append.mpr ⟨h.waiting, List.pairwise_singleton _ _, fun c hc d hd => ?_⟩
    rw [List.mem_singleton.mp hd]
    exact h.made c hc
  · refine List.forall_mem_append.mpr ⟨fun c hc => Nat.lt_succ_of_lt (h.made c hc), ?_⟩
    exact List.forall_mem_singleton.mpr (Nat.lt_succ_self _)
  · refine List.forall_mem_append.mpr ⟨h.sent e he, ?_⟩
    exact List.forall_mem_singleton.mpr fun _ => h.sent_made e he

theorem Ordered.start (h : Ordered s) {before after : List Call} {c : Call}
    (hc : s.waiting = before ++ c :: after) (hfirst : ∀ d ∈ before, d.sessionId ≠ c.sessionId)
    (hguard : OneCounter s c) (hadvances : s.Advances c) (signed : Bool) :
    Ordered (s.start c (before ++ after) signed) := by
  obtain ⟨hwaiting, hmade, hsentmade, hsent, hdrawn, hincreasing⟩ := h
  have hsub : ∀ d ∈ before ++ after, d ∈ s.waiting := by
    rw [hc]
    exact fun d hd => (List.sublist_cons_self c after |>.append_left before).subset hd
  have hmem : c ∈ s.waiting := by simp [hc]
  have hlater : ∀ d ∈ before ++ after, c.sessionId = d.sessionId → c.number < d.number := by
    rw [hc] at hwaiting
    intro d hd hid
    rcases List.mem_append.mp hd with hbefore | hafter
    · exact absurd hid.symm (hfirst d hbefore)
    · exact (List.pairwise_cons.mp (List.pairwise_append.mp hwaiting).2.1).1 d hafter
  have hrest : (before ++ after).Pairwise fun c d => c.number < d.number :=
    hwaiting.sublist (hc ▸ (List.sublist_cons_self c after).append_left before)
  have hone : addOne (s.counters c.counter) = s.counters c.counter + 1 := if_pos hadvances
  have hcounters : ∀ k, s.counters k ≤
      Function.update s.counters c.counter (addOne (s.counters c.counter)) k := by
    intro k
    by_cases heq : k = c.counter
    · subst heq
      simp [hone]
    · simp [heq]
  unfold Client.start
  split
  · exact ⟨hrest, fun d hd => hmade d (hsub d hd), hsentmade,
      fun e he d hd => hsent e he d (hsub d hd), hdrawn, hincreasing⟩
  · cases signed with
    | false => exact ⟨hrest, fun d hd => hmade d (hsub d hd), hsentmade,
        fun e he d hd => hsent e he d (hsub d hd),
        fun e he => Nat.lt_of_lt_of_le (hdrawn e he) (hcounters _), hincreasing⟩
    | true =>
      refine ⟨hrest, fun d hd => hmade d (hsub d hd), ?_, ?_, ?_, ?_⟩
      · exact List.forall_mem_append.mpr ⟨hsentmade, List.forall_mem_singleton.mpr (hmade c hmem)⟩
      · exact List.forall_mem_append.mpr ⟨fun e he d hd => hsent e he d (hsub d hd),
          List.forall_mem_singleton.mpr hlater⟩
      · exact List.forall_mem_append.mpr
          ⟨fun e he => Nat.lt_of_lt_of_le (hdrawn e he) (hcounters _),
            List.forall_mem_singleton.mpr (by simp [hone])⟩
      · have hlast : ∀ e ∈ s.sent, e.1.sessionId = c.sessionId →
            e.1.number < c.number ∧ e.2 < s.counters c.counter := fun e he hid =>
          ⟨hsent e he c hmem hid, hguard e he hid ▸ hdrawn e he⟩
        rintro e he e' he' hid hlt
        rcases List.mem_append.mp he with hold | hnew
        · rcases List.mem_append.mp he' with hold' | hnew'
          · exact hincreasing e hold e' hold' hid hlt
          · rw [List.mem_singleton.mp hnew'] at hid ⊢
            exact (hlast e hold hid).2
        · rw [List.mem_singleton.mp hnew] at hid hlt
          rcases List.mem_append.mp he' with hold' | hnew'
          · exact absurd hlt (Nat.lt_asymm (hlast e' hold' hid.symm).1)
          · rw [List.mem_singleton.mp hnew'] at hlt
            exact absurd hlt (Nat.lt_irrefl _)

/-- In every run in which each call draws from the counter that the earlier calls under its
session id have drawn from, and below 2⁵³, no step index is used twice and they increase in call
order. -/
theorem step_indices_increase (sessions : ℕ → ℕ) (s : Client)
    (hrun : Run (fun s c => OneCounter s c ∧ s.Advances c) (.new sessions) s) : Increasing s := by
  have hall : Ordered s := by
    induction hrun with
    | refl => exact ⟨.nil, by simp [Client.new], by simp [Client.new], by simp [Client.new],
        by simp [Client.new], by simp [Increasing, Client.new]⟩
    | tail _ hstep ih =>
      cases hstep with
      | call sessionId scope => exact ih.call sessionId scope
      | start hc hfirst _ hguard signed => exact ih.start hc hfirst hguard.1 hguard.2 signed
      | settle => exact ⟨ih.waiting, ih.made, ih.sent_made, ih.sent, ih.drawn, ih.increasing⟩
  exact hall.increasing

/-- Two overlapping calls under one session id send the first two indices. -/
theorem overlapping_calls_increase : ∃ s,
    Run (fun s c => OneCounter s c ∧ s.Advances c) (.new fun _ => 0) s ∧
      s.sent = [(⟨0, "x", none⟩, 0), (⟨1, "x", none⟩, 1)] ∧ Increasing s := by
  have hcalled := (Relation.ReflTransGen.single (.call "x" none :
    Step (fun s c => OneCounter s c ∧ s.Advances c) (.new fun _ => 0) _)).tail (.call "x" none)
  have hfirst := (hcalled.tail (.start (show _ = [] ++ ⟨0, "x", none⟩ :: [⟨1, "x", none⟩] from rfl)
    (by simp) (by decide) ⟨by rintro e ⟨⟩, by unfold Client.Advances; decide⟩ true)).tail
    (.settle "x")
  have hsecond := hfirst.tail (.start (show _ = [] ++ ⟨1, "x", none⟩ :: [] from rfl) (by simp)
    (by decide) ⟨by unfold OneCounter; decide, by unfold Client.Advances; decide⟩ true)
  exact ⟨_, hsecond, rfl, step_indices_increase _ _ hsecond⟩

/-- The first call of a session inside its scope repeats the index of a call outside. -/
theorem step_index_reused : ∃ s, Run (fun _ _ => True) (.new fun _ => 0) s ∧ ¬ Increasing s := by
  have hfirst := (Relation.ReflTransGen.single (.call "x" none :
    Step (fun _ _ => True) (.new fun _ => 0) _)).tail (.start
      (show _ = [] ++ ⟨0, "x", none⟩ :: [] from rfl) (by simp) (by decide) trivial true)
  have hcalled := (hfirst.tail (.settle "x")).tail (.call "x" (some 0))
  refine ⟨_, hcalled.tail (.start (show _ = [] ++ ⟨1, "x", some 0⟩ :: [] from rfl) (by simp)
    (by decide) trivial true), fun h => ?_⟩
  have hlt := h (⟨0, "x", none⟩, 0) (by decide) (⟨1, "x", some 0⟩, 0) (by decide) rfl (by decide)
  cases hlt

end UndoLog.TypeScript
