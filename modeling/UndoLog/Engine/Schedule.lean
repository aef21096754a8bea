import UndoLog.Engine.Timeouts

/-!
# Running schedules

Schedules are run by evaluation, and what they show is read off the trace. The
sample deployment has one organisation and no compensation endpoints, unless said
otherwise; its hash tells calls apart by their step.
-/

namespace UndoLog

open Concurrent Machine

variable {S : Setup} {guard : Guard (system S)} {c : State S}

/-- The next statements of a call, with nothing unusual from outside. -/
def runs (t n : ℕ) : List (Choice (system S)) := List.replicate n (.run t ({} : Oracle))

/-- The next statement of a call generates the identifier `u`. -/
def draw (t : ℕ) (u : Uuid) : Choice (system S) := .run t ({ uuid := u } : Oracle)

instance (t : ℕ) (orgId : OrgId) (signature : CallSignature) :
    Decidable (Intercepts c t orgId signature) :=
  decidable_of_iff (c.trace.any (fun
      | .started u (.intercept call) =>
        u = t ∧ call.orgId = orgId ∧ call.signature S.hash = signature
      | _ => false) = true) <| by
    rw [List.any_eq_true]
    constructor
    · rintro ⟨event, hmem, htest⟩
      split at htest
      · next u call =>
        obtain ⟨rfl, horg, hsig⟩ := of_decide_eq_true htest
        exact ⟨call, hmem, horg, hsig⟩
      · cases htest
    · rintro ⟨call, hmem, horg, hsig⟩
      exact ⟨_, hmem, by simp [horg, hsig]⟩

instance (orgId : OrgId) (signature : CallSignature) :
    Decidable (OneOrganisation c orgId signature) :=
  decidable_of_iff (c.trace.all (fun
      | .started _ (.intercept call) => call.signature S.hash = signature → call.orgId = orgId
      | _ => true) = true) <| by
    rw [List.all_eq_true]
    constructor
    · intro hall t call hmem
      exact of_decide_eq_true (hall _ hmem)
    · intro hone event hmem
      split
      · next t call => exact decide_eq_true (hone t call hmem)
      · rfl

/-- Whether a call has returned an outcome that passes a test. -/
def outcomeTest (p : ℕ → InterceptOutcome → Bool) (c : State S) : Bool :=
  c.trace.any fun
    | .returned t (.ok (.intercepted outcome)) => p t outcome
    | _ => false

theorem outcomeTest_iff {p : ℕ → InterceptOutcome → Bool} :
    outcomeTest p c = true ↔ ∃ t outcome, Outcomes c t outcome ∧ p t outcome = true := by
  rw [outcomeTest, List.any_eq_true]
  constructor
  · rintro ⟨event, hmem, htest⟩
    split at htest
    · next t outcome => exact ⟨t, outcome, hmem, htest⟩
    · cases htest
  · rintro ⟨t, outcome, hmem, hp⟩
    exact ⟨_, hmem, hp⟩

/-- Whether a call has started that passes a test. -/
def startedTest (p : ℕ → Op → Bool) (c : State S) : Bool :=
  c.trace.any fun
    | .started t op => p t op
    | _ => false

theorem startedTest_iff {p : ℕ → Op → Bool} :
    startedTest p c = true ↔ ∃ t op, Started c t op ∧ p t op = true := by
  rw [startedTest, List.any_eq_true]
  constructor
  · rintro ⟨event, hmem, htest⟩
    split at htest
    · next t op => exact ⟨t, op, hmem, htest⟩
    · cases htest
  · rintro ⟨t, op, hmem, hp⟩
    exact ⟨_, hmem, hp⟩

instance (t : ℕ) : Decidable (∃ r, Returned c t (.ok r)) :=
  decidable_of_iff (c.trace.any (fun
      | .returned u (.ok _) => u = t
      | _ => false) = true) <| by
    rw [List.any_eq_true]
    constructor
    · rintro ⟨event, hmem, htest⟩
      split at htest
      · next u r =>
        obtain rfl := of_decide_eq_true htest
        exact ⟨r, hmem⟩
      · cases htest
    · rintro ⟨r, hmem⟩
      exact ⟨_, hmem, decide_eq_true rfl⟩

/-! ## The sample deployment -/

/-- The sample deployment. -/
def sample (b : Backend) : Setup where
  backend := b
  hash := fun _ step _ _ => ⟨BitVec.ofNat 256 step.toNat⟩
  config := {}
  compensations :=
    { endpointFor := fun _ => none
      defaultRetryConfig := { RetryConfig.default with maxRetries := 0 }
      statusText := fun _ => "" }

/-- The sample deployment with an endpoint for every compensation. -/
def reachableSample (b : Backend) : Setup where
  backend := b
  hash := (sample b).hash
  config := {}
  compensations := { (sample b).compensations with endpointFor := some }

/-- The organisation of the sample deployment. -/
def sampleOrg : OrgId := ⟨1⟩

/-- A call of the sample organisation in one session. -/
def sampleCall (step : UInt32) : ToolCall where
  orgId := sampleOrg
  sessionId := ⟨2⟩
  toolId := none
  toolName := "tool"
  toolVersion := "1"
  stepIndex := step
  args := .null

/-- The tool of the sample calls, registered with a tier. -/
def sampleRegistry (tier : ToolTier) : List (OrgId × ToolRegistration) :=
  [(sampleOrg, { toolName := "tool", toolVersion := "1", tier })]

/-- A compensation of the sample tool. -/
def sampleCompensation : CompensationDescriptor where
  fnName := "undo"
  fnVersion := "1"
  args := .null
  maxRetries := 0
  retryBackoffMs := 0

/-- The sample deployment at a time, with partitions for two months. -/
def sampleWorld (now : Time) (tier : ToolTier) : World where
  db := Db.empty now [⟨2026, 5⟩, ⟨2026, 6⟩] [sampleOrg]
  issued := []
  cache := []
  registry := sampleRegistry tier

theorem sampleWorld_initial (S : Setup) (now : Time) (tier : ToolTier) :
    Initial S (sampleWorld now tier) :=
  ⟨now, _, _, rfl, rfl, rfl, fun _ r hr => by
    obtain rfl := List.mem_singleton.mp hr
    exact List.mem_singleton_self _⟩

section Sample

variable (guard : Guard (system S)) [∀ c choice, Decidable (guard c choice)] (now : Time)
  (tier : ToolTier) (choices : List (Choice (system S)))

/-- What a schedule of the sample deployment shows is true of a reachable state. -/
theorem exists_sample (P : State S → Prop) [DecidablePred P]
    (h : (runGuarded guard (Config.initial (M := system S) (sampleWorld now tier)) choices).any
      (fun c => P c) = true) : ∃ c, Reaches S guard c ∧ P c := by
  obtain ⟨c, hc, hP⟩ := exists_reachable_of_any (sampleWorld_initial S now tier) h
  exact ⟨c, hc, of_decide_eq_true hP⟩

/-- What two schedules in a row show is true of a reachable state and a run from it. -/
theorem exists_run (rest : List (Choice (system S))) (P : State S → State S → Prop)
    [∀ c c', Decidable (P c c')]
    (h : (runGuarded guard (Config.initial (M := system S) (sampleWorld now tier)) choices).any
      (fun c => (runGuarded guard c rest).any fun c' => P c c') = true) :
    ∃ c c', Reaches S guard c ∧ Run guard c c' ∧ P c c' := by
  obtain ⟨c, hc, hrest⟩ := exists_reachable_of_any (sampleWorld_initial S now tier) h
  obtain ⟨c', hrun, hP⟩ := (Option.any_eq_true _ _).mp hrest
  exact ⟨c, c', hc, Run.of_runGuarded hrun, of_decide_eq_true hP⟩

theorem exists_transition (choice : Choice (system S)) (P : State S → State S → Prop)
    [∀ c c', Decidable (P c c')]
    (h : (runGuarded guard (Config.initial (M := system S) (sampleWorld now tier)) choices).any
      (fun c => decide (guard c choice) && (step c choice).any fun c' => P c c') = true) :
    ∃ c c', Reaches S guard c ∧ guard c choice ∧ Transition c choice c' ∧ P c c' := by
  obtain ⟨c, hc, hnext⟩ := exists_reachable_of_any (sampleWorld_initial S now tier) h
  obtain ⟨hallowed, hnext⟩ := Bool.and_eq_true_iff.mp hnext
  obtain ⟨c', hstep, hP⟩ := (Option.any_eq_true _ _).mp hnext
  exact ⟨c, c', hc, of_decide_eq_true hallowed, Transition.of_step hstep, of_decide_eq_true hP⟩

theorem exists_started (op : Op) (hallowed : ∀ d, guard d (.start op))
    (rest : List (Choice (system S))) (P : State S → State S → Prop) [∀ c c', Decidable (P c c')]
    (h : (runGuarded guard (Config.initial (M := system S) (sampleWorld now tier)) choices).any
      (fun d => (runGuarded guard d (.start op :: rest)).any fun c => P d c) = true) :
    ∃ d d' c, Reaches S guard d ∧ Transition d (.start op) d' ∧ Run guard d' c ∧ P d c := by
  obtain ⟨d, hd, hrest⟩ := exists_reachable_of_any (sampleWorld_initial S now tier) h
  obtain ⟨c, hrun, hP⟩ := (Option.any_eq_true _ _).mp hrest
  have hstart := Transition.start (M := system S) (c := d) op
  rw [runGuarded_cons (hallowed d) hstart] at hrun
  exact ⟨d, _, c, hd, hstart, Run.of_runGuarded hrun, of_decide_eq_true hP⟩

end Sample

/-- A schedule of the sample deployment. -/
abbrev Schedule : Type := List (Choice (system (sample .postgres)))

/-- A compensable call of the sample deployment that is told to execute effect 10. -/
def executedCall : Schedule :=
  [.start (.intercept (sampleCall 0))] ++ runs 0 9 ++ [draw 0 10] ++ runs 0 1 ++ [draw 0 11] ++
    runs 0 2 ++ [.finish 0]

/-- Two compensable calls of one session that are told to execute, with undo entries 11
and 21. -/
def twoExecutedCalls {S : Setup} : List (Choice (system S)) :=
  [.start (.intercept (sampleCall 0))] ++ runs 0 9 ++ [draw 0 10] ++ runs 0 1 ++ [draw 0 11] ++
    runs 0 2 ++ [.finish 0, .start (.intercept (sampleCall 1))] ++ runs 1 5 ++ [draw 1 20] ++
    runs 1 1 ++ [draw 1 21] ++ runs 1 2 ++ [.finish 1]

/-- An irreversible call of the sample deployment that asks for a decision on effect
10, with approval request 11. -/
def awaitingCall : Schedule :=
  [.start (.intercept (sampleCall 0))] ++ runs 0 9 ++ [draw 0 10] ++ runs 0 1 ++ [draw 0 11] ++
    runs 0 5 ++ [.finish 0]

/-- An irreversible call is rejected in its own session. -/
def rejectedCall : Schedule :=
  awaitingCall ++ [.start (.reject sampleOrg ⟨11⟩ "human")] ++ runs 1 3 ++ [.finish 1]

/-- The timeout job runs alone on an approval that waits. -/
def timedOutCall : Schedule :=
  awaitingCall ++ [.start (.processTimeouts sampleOrg)] ++ runs 1 3 ++ [.finish 1]

/-- The result of the sample calls. -/
def sampleResult : ToolResult where
  success := true
  output := .null
  error := none
  durationMs := 0

/-- The commit of effect 10. -/
abbrev sampleCommit : Op := .commit sampleOrg ⟨10⟩ sampleResult

/-- A compensable call is executed and committed. -/
def committedCall : Schedule :=
  executedCall ++ [.start sampleCommit] ++ runs 1 1 ++ [.finish 1]

end UndoLog
