import UndoLog.Engine.Compensation
import UndoLog.Engine.Registry
import UndoLog.Engine.Schedule

/-!
# The arguments of a compensation

An undo entry takes its arguments from the tier of the tool, not from the call. With the
registry that `refresh_all_orgs` loads they are always null, so the requests of different
calls cannot be told apart by their bodies.
-/

namespace UndoLog

open Concurrent Machine Relational

variable {S : Setup} {c : State S}

/-- The bodies of the requests that were sent for an undo entry. -/
def requestBodies (c : State S) (undoId : UndoId) : List Json :=
  c.trace.filterMap fun
    | .ran _ (.app (.post _ id body)) _ => if id = undoId then some body else none
    | _ => none

variable {body : Json} {guard : Guard (system S)}

/-- An intercepted call was told to execute, and a request with the body was sent for its
undo entry. -/
def CompensatedWith (c : State S) (call : ToolCall) (body : Json) : Prop :=
  ∃ t push, Started c t (.intercept call) ∧ Outcomes c t (.execute push.effectId) ∧
    (t, push) ∈ pushes c ∧ body ∈ requestBodies c push.undoId

theorem request_args (hc : Reaches S guard c) {t : ℕ} {push : Push} (hpush : (t, push) ∈ pushes c)
    (hbody : body ∈ requestBodies c push.undoId) : body = push.compensation.args := by
  obtain ⟨t', endpoint, reply, hran⟩ : ∃ t endpoint reply,
      Event.ran (M := system S) t (.app (.post endpoint push.undoId body)) reply ∈ c.trace := by
    obtain ⟨event, hmem, hevent⟩ := List.mem_filterMap.mp hbody
    split at hevent
    · next t endpoint id body' reply =>
      split at hevent
      · next hid =>
        cases hevent
        exact ⟨t, endpoint, reply, hid ▸ hmem⟩
      · cases hevent
    · cases hevent
  obtain ⟨u, hu, hid, rfl⟩ := post_row hc hran
  obtain ⟨u', hu', hcore⟩ := undo_of_push hc hpush
  have hid' : u'.undoId = push.undoId := (congrArg (fun u : UndoRow => u.undoId) hcore :)
  obtain rfl := (undoIds_keyed hc).eq hu hu' (hid.trans hid'.symm)
  exact (congrArg (fun u : UndoRow => u.compensationArgs) hcore :)

theorem CompensatedWith.body_eq (hc : Reaches S RegistryLoaded c) {call : ToolCall}
    (h : CompensatedWith c call body) : body = .null := by
  obtain ⟨t, push, -, -, hpush, hbody⟩ := h
  obtain ⟨call', before, -, hbefore, -, -, inserted, -, -, htier⟩ := push_pre hc hpush
  obtain ⟨fnName, hnew⟩ := resolved_compensation hc (hbefore.subset htier)
  rw [request_args hc hpush hbody, hnew]
  rfl

/-- Two compensations have different bodies whenever the calls have different arguments, if
and only if the calls do not have different arguments. -/
theorem bodiesDiffer_iff {c₁ c₂ : State S} (hc₁ : Reaches S RegistryLoaded c₁)
    (hc₂ : Reaches S RegistryLoaded c₂) {call₁ call₂ : ToolCall} {body₁ body₂ : Json}
    (h₁ : CompensatedWith c₁ call₁ body₁) (h₂ : CompensatedWith c₂ call₂ body₂) :
    (call₁.args.eq call₂.args = false → body₁.eq body₂ = false) ↔
      call₁.args.eq call₂.args = true := by
  rw [h₁.body_eq hc₁, h₂.body_eq hc₂]
  constructor
  · intro hdiffer
    by_contra hargs
    have hnull := hdiffer (Bool.eq_false_iff.mpr hargs)
    cases hnull
  · intro hsame hargs
    rw [hsame] at hargs
    cases hargs

/-! ## Two calls with different arguments -/

theorem exists_reachable_loaded {w : World} {choices : List (Choice (system S))}
    {test : State S → Bool} (hw : Initial S w) (hloaded : Loaded w.registry)
    (h : (runGuarded NoRefresh (Config.initial (M := system S) w) choices).any test = true) :
    ∃ c, Reaches S RegistryLoaded c ∧ test c = true := by
  obtain ⟨c, hrun, htest⟩ := (Option.any_eq_true _ _).mp h
  refine ⟨c, ?_, htest⟩
  have hall : Reaches S RegistryLoaded c ∧ Loaded (World.registry c.store) := by
    refine (Run.of_runGuarded hrun).invariant
      (P := fun d => Reaches S RegistryLoaded d ∧ Loaded (World.registry d.store))
      (Reachable.initial hw) ⟨Reachable.initial hw, hloaded⟩ ?_
    rintro d choice d' - ⟨hd, hregistry⟩ hallowed htrans
    refine ⟨hd.transition hregistry htrans, ?_⟩
    rcases registry_step htrans with hsame | ⟨rfl, -⟩
    · rw [hsame]
      exact hregistry
    · exact hallowed.elim
  exact hall.1

/-- The call is told to execute the effect. -/
def InterceptOutcome.executes (effectId : EffectId) : InterceptOutcome → Bool
  | .execute id => id = effectId
  | _ => false

/-- Whether a pushed call was told to execute and a request was sent for its entry. -/
def compensatedTest (c : State S) (p : ℕ × Push) : Bool :=
  outcomeTest (fun t outcome => t = p.1 ∧ outcome.executes p.2.effectId) c &&
    !(requestBodies c p.2.undoId).isEmpty

theorem exists_compensatedWith (hc : Reaches S guard c) {p : ℕ × Push} (hp : p ∈ pushes c)
    (h : compensatedTest c p = true) : ∃ body, CompensatedWith c p.2.call body := by
  obtain ⟨hexecuted, hsent⟩ := Bool.and_eq_true_iff.mp h
  obtain ⟨t, outcome, hout, htest⟩ := outcomeTest_iff.mp hexecuted
  obtain ⟨rfl, hexecutes⟩ := of_decide_eq_true htest
  obtain ⟨call, before, hstart, -, hcall, -⟩ := push_pre hc hp
  obtain ⟨body, hbody⟩ := List.exists_mem_of_ne_nil (requestBodies c p.2.undoId)
    (by simpa using hsent)
  refine ⟨body, p.1, p.2, ?_, ?_, hp, hbody⟩
  · rw [hcall]
    exact hstart
  · cases outcome with
    | execute id =>
      obtain rfl : id = p.2.effectId := of_decide_eq_true hexecutes
      exact hout
    | replay | awaitingApproval => cases hexecutes

/-- The compensable tool of the sample calls. -/
def sampleToolRow : ToolRow where
  orgId := sampleOrg
  toolName := "tool"
  toolVersion := "1"
  tier := .compensable
  irreversibilityReason := none
  compensationRef := some "undo"
  isActive := true

theorem sampleToolRow_loaded : Loaded (sampleRegistry (.compensable (.new "undo" .null))) :=
  .refresh [sampleToolRow] .new

/-- Two calls with different arguments are executed, and then their session is
compensated. -/
def compensatedCalls : List (Choice (system (reachableSample .postgres))) :=
  [.start (.intercept (sampleCall 0))] ++ runs 0 9 ++ [draw 0 10] ++ runs 0 1 ++ [draw 0 11] ++
    runs 0 2 ++ [.finish 0, .start (.intercept { sampleCall 1 with args := .bool true })] ++
    runs 1 5 ++ [draw 1 20] ++ runs 1 1 ++ [draw 1 21] ++ runs 1 2 ++
    [.finish 1, .start (.compensateSession sampleOrg ⟨2⟩)] ++ runs 2 7 ++ [.finish 2]

theorem exists_compensated_different :
    ∃ (c : State (reachableSample .postgres)) (call₁ call₂ : ToolCall) (body₁ body₂ : Json),
      Reaches (reachableSample .postgres) RegistryLoaded c ∧ CompensatedWith c call₁ body₁ ∧
      CompensatedWith c call₂ body₂ ∧ call₁.args.eq call₂.args = false := by
  have hrun : (runGuarded NoRefresh (Config.initial (M := system (reachableSample .postgres))
      (sampleWorld 1780271999 (.compensable (.new "undo" .null)))) compensatedCalls).any (fun c =>
        ∃ p ∈ pushes c, ∃ q ∈ pushes c, compensatedTest c p = true ∧ compensatedTest c q = true ∧
          p.2.call.args.eq q.2.call.args = false) = true := by
    decide +kernel
  obtain ⟨c, hc, htest⟩ :=
    exists_reachable_loaded (sampleWorld_initial _ _ _) sampleToolRow_loaded hrun
  obtain ⟨p, hp, q, hq, hptest, hqtest, hargs⟩ := of_decide_eq_true htest
  obtain ⟨body₁, h₁⟩ := exists_compensatedWith hc hp hptest
  obtain ⟨body₂, h₂⟩ := exists_compensatedWith hc hq hqtest
  exact ⟨c, p.2.call, q.2.call, body₁, body₂, hc, h₁, h₂, hargs⟩

/-- The two compensations of that run. -/
theorem bodiesDiffer_iff_compensated :
    ∃ (c : State (reachableSample .postgres)) (call₁ call₂ : ToolCall) (body₁ body₂ : Json),
      Reaches (reachableSample .postgres) RegistryLoaded c ∧ CompensatedWith c call₁ body₁ ∧
      CompensatedWith c call₂ body₂ ∧ ((call₁.args.eq call₂.args = false → body₁.eq body₂ = false) ↔
        call₁.args.eq call₂.args = true) := by
  obtain ⟨c, call₁, call₂, body₁, body₂, hc, h₁, h₂, -⟩ := exists_compensated_different
  exact ⟨c, call₁, call₂, body₁, body₂, hc, h₁, h₂, bodiesDiffer_iff hc hc h₁ h₂⟩

/-- They have the same body, though the calls have different arguments. -/
theorem bodiesDiffer_fails_compensated :
    ∃ (c : State (reachableSample .postgres)) (call₁ call₂ : ToolCall) (body₁ body₂ : Json),
      Reaches (reachableSample .postgres) RegistryLoaded c ∧ CompensatedWith c call₁ body₁ ∧
      CompensatedWith c call₂ body₂ ∧
      ¬ (call₁.args.eq call₂.args = false → body₁.eq body₂ = false) := by
  obtain ⟨c, call₁, call₂, body₁, body₂, hc, h₁, h₂, hargs⟩ := exists_compensated_different
  refine ⟨c, call₁, call₂, body₁, body₂, hc, h₁, h₂, fun hdiffer => ?_⟩
  have hbodies := hdiffer hargs
  rw [h₁.body_eq hc, h₂.body_eq hc] at hbodies
  cases hbodies

end UndoLog
