import UndoLog.Text.Json

/-!
# The rollback harness of the Python SDK

`SagaTestHarness` replays a compensation pass over recorded effects, with Python functions in the
place of endpoints.
-/

namespace UndoLog.Harness

open Text

variable {σ ν : Type} [DecidableEq σ]

/-! ## Python objects -/

/-- A Python object. Tuples are arrays and dictionaries are objects in the order of insertion. What
may be a key is a string, and `ν` has all other objects. -/
abbrev Object (σ ν : Type) : Type := Value σ ν

/-- The entries of a dictionary. -/
abbrev Dict (σ ν : Type) : Type := List (σ × Object σ ν)

/-- The keys of a dictionary. -/
abbrev keys (d : Dict σ ν) : List σ := d.map (·.1)

/-- The dictionary that `d.update(d')` leaves. -/
def update (d d' : Dict σ ν) : Dict σ ν :=
  d.map (fun f => (f.1, (d'.lookup f.1).getD f.2)) ++ d'.filter (·.1 ∉ keys d)

/-! ## Rolling back -/

/-- `EffectDescriptor`. `compensation` is what each call of the function raises, if it raises
anything. -/
structure EffectDescriptor (σ ν : Type) where
  toolName : String
  compensation : ℕ → Option String
  stackPosition : ℕ
  maxRetries : ℤ := 0
  args : List (Object σ ν) := []
  kwargs : Dict σ ν := []
  distinct : (Value.array (.object kwargs :: args)).Distinct

/-- `StepResult` -/
structure StepResult (σ ν : Type) where
  toolName : String
  stackPosition : ℕ
  attempts : ℕ
  state : String
  error : Option String := none
  args : Dict σ ν
  deadLetter : Bool := false
  distinct : (keys args).Nodup

/-- `SagaReport` -/
structure SagaReport (σ ν : Type) where
  sessionResult : String
  steps : List (StepResult σ ν)
  compensationOrder : List String
  deadLetters : List (StepResult σ ν)

/-- `SagaTestHarness`, whose constructor refuses other lists. -/
structure SagaTestHarness (σ ν : Type) where
  effects : List (EffectDescriptor σ ν)
  nonempty : effects ≠ []
  distinct : (effects.map (·.stackPosition)).Nodup

/-- The number of attempts of an entry. -/
def EffectDescriptor.budget (e : EffectDescriptor σ ν) : ℕ :=
  if 0 < e.maxRetries then e.maxRetries.toNat else 3

/-- The attempts of an entry: how many there were, the last error, and whether one succeeded. -/
def attemptLoop (compensation : ℕ → Option String) :
    (left attempts : ℕ) → (error : Option String) → ℕ × Option String × Bool
  | 0, attempts, error => (attempts, error, false)
  | left + 1, attempts, error =>
    match compensation attempts with
    | some message => attemptLoop compensation left (attempts + 1) (some message)
    | none => (attempts + 1, error, true)

theorem nodup_update {d d' : Dict σ ν} (h : (keys d).Nodup) (h' : (keys d').Nodup) :
    (keys (update d d')).Nodup := by
  have hkeys : keys (update d d') = keys d ++ keys (d'.filter (·.1 ∉ keys d)) := by
    simp [update, keys]
  rw [hkeys]
  refine List.nodup_append.mpr ⟨h, h'.sublist (List.filter_sublist.map _), ?_⟩
  rintro a ha b hb rfl
  obtain ⟨f, hf, rfl⟩ := List.mem_map.mp hb
  have hnot := (List.mem_filter.mp hf).2
  exact absurd ha (by simpa using hnot)

section Rollback

variable (str : String → σ)

/-- The arguments of a step as one dictionary. -/
def stepArgs (e : EffectDescriptor σ ν) : Dict σ ν :=
  match e.args with
  | [] => e.kwargs
  | [.object d] => update e.kwargs d
  | args =>
    if e.kwargs.isEmpty then [(str "args", .array args)]
    else update e.kwargs [(str "_args", .array args)]

theorem stepArgs_nodup (e : EffectDescriptor σ ν) : (keys (stepArgs str e)).Nodup := by
  obtain ⟨hkwargs, hargs⟩ : (Value.object e.kwargs).Distinct ∧ ∀ x ∈ e.args, x.Distinct := by
    simpa [Value.Distinct, Value.All] using e.distinct
  unfold stepArgs
  split
  · exact hkwargs.1
  · next d heq => exact nodup_update hkwargs.1 (hargs (.object d) (by simp [heq])).1
  · split
    · exact List.nodup_singleton _
    · exact nodup_update hkwargs.1 (List.nodup_singleton _)

/-- The step of an entry with its attempts. -/
def EffectDescriptor.step (e : EffectDescriptor σ ν) :
    ℕ × Option String × Bool → StepResult σ ν
  | (attempts, error, compensated) =>
    { toolName := e.toolName
      stackPosition := e.stackPosition
      attempts
      state := if compensated then "compensated" else "failed"
      error := if compensated then none else error
      args := stepArgs str e
      deadLetter := !compensated
      distinct := stepArgs_nodup str e }

/-- The pass over the entries: the steps, the tools that were compensated and whether an entry
failed. -/
def rollbackLoop : List (EffectDescriptor σ ν) → List (StepResult σ ν) × List String × Bool
  | [] => ([], [], false)
  | e :: rest =>
    let ended := attemptLoop e.compensation e.budget 0 none
    if ended.2.2 then
      let (steps, order, halted) := rollbackLoop rest
      (e.step str ended :: steps, e.toolName :: order, halted)
    else ([e.step str ended], [], true)

/-- The effects from the highest position down. -/
def descending (effects : List (EffectDescriptor σ ν)) : List (EffectDescriptor σ ν) :=
  effects.insertionSort fun a b => b.stackPosition ≤ a.stackPosition

/-- The report of a pass over the entries. -/
def reportOf (effects : List (EffectDescriptor σ ν)) : SagaReport σ ν :=
  let (steps, order, halted) := rollbackLoop str effects
  { sessionResult := if halted then "halted" else "compensated"
    steps
    compensationOrder := order
    deadLetters := steps.filter (·.deadLetter) }

/-- `rollback` -/
def SagaTestHarness.rollback (harness : SagaTestHarness σ ν) : SagaReport σ ν :=
  reportOf str (descending harness.effects)

end Rollback

/-! ## What a pass leaves -/

/-- One of the attempts of an entry succeeds. -/
def EffectDescriptor.Succeeds (e : EffectDescriptor σ ν) : Prop :=
  ∃ i < e.budget, e.compensation i = none

theorem attemptLoop_eq (f : ℕ → Option String) (left n : ℕ) (error : Option String) :
    (∃ last error', attemptLoop f left n error = (last + 1, error', true) ∧ n ≤ last ∧
      last < n + left ∧ f last = none ∧ ∀ i, n ≤ i → i < last → f i ≠ none) ∨
    (∃ error', attemptLoop f left n error = (n + left, error', false) ∧
      ∀ i, n ≤ i → i < n + left → f i ≠ none) := by
  induction left generalizing n error with
  | zero => exact .inr ⟨error, rfl, fun i hi hlt => by omega⟩
  | succ left ih =>
    cases hfirst : f n with
    | none =>
      refine .inl ⟨n, error, by simp [attemptLoop, hfirst], le_refl n, by omega, hfirst, ?_⟩
      intro i hi hlt
      omega
    | some message =>
      have hlater : ∀ {bound i : ℕ}, (∀ i, n + 1 ≤ i → i < bound → f i ≠ none) → n ≤ i →
          i < bound → f i ≠ none := by
        intro bound i h hi hlt
        by_cases heq : i = n
        · rw [heq, hfirst]
          exact Option.some_ne_none message
        · exact h i (by omega) hlt
      rcases ih (n + 1) (some message) with ⟨last, error', heq, hle, hlt, hlast, hbefore⟩ |
        ⟨error', heq, hall⟩
      · refine .inl ⟨last, error', ?_, by omega, by omega, hlast, fun i => hlater hbefore⟩
        simpa [attemptLoop, hfirst] using heq
      · refine .inr ⟨error', ?_, fun i hi hlt => hlater hall hi (by omega)⟩
        rw [show n + (left + 1) = n + 1 + left by omega]
        simpa [attemptLoop, hfirst] using heq

variable {e : EffectDescriptor σ ν}

omit [DecidableEq σ] in
theorem EffectDescriptor.Succeeds.attempts (h : e.Succeeds) :
    ∃ last error, attemptLoop e.compensation e.budget 0 none = (last + 1, error, true) ∧
      last < e.budget ∧ e.compensation last = none ∧ ∀ i < last, e.compensation i ≠ none := by
  obtain ⟨i, hi, hsuccess⟩ := h
  rcases attemptLoop_eq e.compensation e.budget 0 none with
    ⟨last, error, heq, -, hlt, hlast, hbefore⟩ | ⟨error, -, hall⟩
  · exact ⟨last, error, heq, by omega, hlast, fun j hj => hbefore j (Nat.zero_le j) hj⟩
  · exact absurd hsuccess (hall i (Nat.zero_le i) (by omega))

omit [DecidableEq σ] in
theorem attempts_of_not_succeeds (h : ¬ e.Succeeds) :
    ∃ error, attemptLoop e.compensation e.budget 0 none = (e.budget, error, false) := by
  rcases attemptLoop_eq e.compensation e.budget 0 none with
    ⟨last, error, -, -, hlt, hlast, -⟩ | ⟨error, heq, -⟩
  · exact absurd ⟨last, by omega, hlast⟩ h
  · exact ⟨error, by simpa using heq⟩

theorem reportOf_cons (str : String → σ) {n : ℕ} {error : Option String}
    (h : attemptLoop e.compensation e.budget 0 none = (n, error, true))
    (rest : List (EffectDescriptor σ ν)) : reportOf str (e :: rest) =
      { reportOf str rest with
        steps := e.step str (n, error, true) :: (reportOf str rest).steps
        compensationOrder := e.toolName :: (reportOf str rest).compensationOrder } := by
  have hloop : rollbackLoop str (e :: rest) = (e.step str (n, error, true) ::
      (rollbackLoop str rest).1, e.toolName :: (rollbackLoop str rest).2.1,
      (rollbackLoop str rest).2.2) := by
    rw [rollbackLoop, h]
    rfl
  have hgood : (e.step str (n, error, true)).deadLetter = false := rfl
  simp [reportOf, hloop, hgood]

end UndoLog.Harness
