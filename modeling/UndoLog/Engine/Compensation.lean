import UndoLog.Engine.UndoStack
import UndoLog.Saga.Contract

/-!
# Compensations in a run

What the walks of `compensate_session` have loaded and marked, and what that says about
the undo stack of the store.
-/

namespace UndoLog

open Concurrent Machine Relational

variable {S : Setup} {guard : Guard (system S)} {c c' : State S}

/-! ## The calls that compensate -/

/-- Statements that only `compensate_session` issues. -/
def Query.ofSaga : Query → Bool
  | .loadUndoStack _ _ | .markCompensated _ _ | .markCompensationFailed _ _ _
  | .markEffectCompensationFailed _ _ | .setCompensated _ _ | .setHalted _ _ _ => true
  | _ => false

variable {t : ℕ} {orgId : OrgId} {sessionId : SessionId} {q : Query} {rows : List UndoRow}
    {past : History} {entry : UndoEntry} {undoId : UndoId}

theorem saga_of_pre {op : Op} (hpre : opPre S op past (.db q))
    (hq : q.ofSaga = true) : ∃ orgId sessionId, op = .compensateSession orgId sessionId := by
  cases op with
  | compensateSession orgId sessionId => exact ⟨orgId, sessionId, rfl⟩
  | processTimeouts | processPendingTimeouts => cases q <;> cases hq <;> cases hpre.1
  | _ => cases q <;> cases hq <;> cases hpre

theorem saga_pre_of_call (hc : Reaches S guard c)
    {next : Except UndoLogError q.Ret → (system S).Prog}
    (hcall : c.calls t = some (.call (.db q) next)) (hq : q.ofSaga = true) :
    ∃ orgId sessionId, Started c t (.compensateSession orgId sessionId) ∧
      sagaPre S.compensations orgId sessionId (pastOf t c) (.db q) := by
  obtain ⟨op, hstart, hpre⟩ := (contract S).pre_of_call hc.coherent hcall
  obtain ⟨orgId, sessionId, rfl⟩ := saga_of_pre hpre hq
  obtain ⟨op', hstart', hpre'⟩ := (sagaContract S).pre_of_call hc.coherent hcall
  obtain rfl := hc.coherent.started_unique t _ _ hstart hstart'
  exact ⟨orgId, sessionId, hstart, hpre'⟩

variable {a : q.Ret} {choice : Choice (system S)} {entries : List UndoEntry} {endpoint : String}
  {args : Json}

theorem QueryStep.saga_pre (hc : Reaches S guard c) {o : Oracle} (h : QueryStep c c' t o q a)
    (hq : q.ofSaga = true) :
    ∃ orgId sessionId, Started c t (.compensateSession orgId sessionId) ∧
      sagaPre S.compensations orgId sessionId (pastOf t c) (.db q) := by
  obtain ⟨next, hcall⟩ := h.call
  exact saga_pre_of_call hc hcall hq

/-- The same for a statement that has succeeded earlier. -/
theorem Succeeded.saga_pre (hc : Reaches S guard c) (h : Succeeded c t q a) (hq : q.ofSaga = true) :
    ∃ orgId sessionId before, Started c t (.compensateSession orgId sessionId) ∧
      before <+: pastOf t c ∧ sagaPre S.compensations orgId sessionId before (.db q) := by
  obtain ⟨op, hstart⟩ := hc.coherent.ran_started t _ _ h
  obtain ⟨past, -, -, hpre⟩ := (contract S).pre_of_ran hc.coherent hstart h
  obtain ⟨orgId, sessionId, rfl⟩ := saga_of_pre hpre hq
  obtain ⟨before, hbefore, -, hpre'⟩ := (sagaContract S).pre_of_ran hc.coherent hstart h
  exact ⟨orgId, sessionId, before, hstart, hbefore, hpre'⟩

/-! ## The loaded stack -/

/-- Rows of a session that were pending together, highest position first, and that are
still on the stack. -/
structure StackOf (db : Db) (orgId : OrgId) (sessionId : SessionId) (rows : List UndoRow) :
    Prop where
  descending : rows.Pairwise fun u v => v.stackPosition < u.stackPosition
  pending : ∀ u ∈ rows, u.state = .pending
  ofSession : ∀ u ∈ rows, u.orgId = orgId ∧ u.sessionId = sessionId
  registered : ∀ u ∈ rows, ∃ u' ∈ db.undo, u'.core = u.core

theorem stackOf_pendingStack (hc : Reaches S guard c) (orgId : OrgId) (sessionId : SessionId) :
    StackOf (dbOf c) orgId sessionId (pendingStack orgId sessionId (dbOf c)) := by
  refine ⟨?_, fun u hu => ?_, fun u hu => ?_, fun u hu => ⟨u, (mem_pendingStack.mp hu).1, rfl⟩⟩
  · -- positions of a session are distinct, so the order is strict
    have hnodup : (pendingStack orgId sessionId (dbOf c)).Pairwise fun u v =>
        (u.sessionId, u.stackPosition) ≠ (v.sessionId, v.stackPosition) := by
      refine List.pairwise_map.mp (((List.perm_insertionSort _ _).map _).nodup_iff.mpr ?_)
      exact (undo_keyed hc).sublist (List.filter_sublist.map _)
    refine List.Pairwise.imp_of_mem ?_ (hnodup.and (List.pairwise_insertionSort _ _))
    rintro u v hu hv ⟨hne, hle⟩
    refine lt_of_le_of_ne hle fun heq => hne (Prod.ext ?_ heq.symm)
    exact (mem_pendingStack.mp hu).2.1.trans (mem_pendingStack.mp hv).2.1.symm
  · exact (mem_pendingStack.mp hu).2.2.2
  · obtain ⟨-, hsession, horg, -⟩ := mem_pendingStack.mp hu
    exact ⟨horg, hsession⟩

theorem StackOf.step (h : StackOf (dbOf c) orgId sessionId rows) (htrans : Transition c choice c') :
    StackOf (dbOf c') orgId sessionId rows := by
  refine { h with registered := fun u hu => ?_ }
  obtain ⟨u₁, hu₁, hcore⟩ := h.registered u hu
  obtain ⟨u₂, hu₂, hstep⟩ := undo_step htrans hu₁
  exact ⟨u₂, hu₂, hstep.core.trans hcore⟩

/-- What a call has loaded. -/
theorem loaded_stack (hc : Reaches S guard c)
    (h : Succeeded c t (.loadUndoStack orgId sessionId) entries) :
    ∃ rows, entries = rows.map mapUndoRow ∧ StackOf (dbOf c) orgId sessionId rows := by
  refine h.since hc ?_ ?_
  · intro c c' o hc _ htrans hquery
    obtain ⟨rfl, hdb⟩ := loadUndoStack_ok.mp hquery.tx
    exact ⟨_, rfl, (stackOf_pendingStack hc orgId sessionId).step htrans⟩
  · rintro c choice c' - - htrans ⟨rows, hrows, hstack⟩
    exact ⟨rows, hrows, hstack.step htrans⟩

/-- The stored row of an entry that was loaded. -/
theorem StackOf.row (h : StackOf (dbOf c) orgId sessionId rows) {u : UndoRow} (hu : u ∈ rows) :
    ∃ u' ∈ (dbOf c).undo, u'.undoId = u.undoId ∧ u'.orgId = orgId ∧
      u'.sessionId = sessionId ∧ u'.stackPosition = u.stackPosition := by
  obtain ⟨u', hu', hcore⟩ := h.registered u hu
  obtain ⟨horg, hsession⟩ := h.ofSession u hu
  obtain ⟨hid, horg', hsession', -, hposition⟩ := core_undo hcore
  exact ⟨u', hu', hid, horg'.trans horg, hsession'.trans hsession, hposition⟩

section

variable (hc : Reaches S guard c)
include hc

/-- Entries with one identifier have one position. -/
theorem StackOf.position (h : StackOf (dbOf c) orgId sessionId rows) {u v : UndoRow} (hu : u ∈ rows)
    (hv : v ∈ (dbOf c).undo) (hid : v.undoId = u.undoId) : v.stackPosition = u.stackPosition := by
  obtain ⟨u', hu', hid', -, -, hposition⟩ := h.row hu
  obtain rfl := (undoIds_keyed hc).eq hu' hv (hid'.trans hid.symm)
  exact hposition

theorem StackOf.undoIds (h : StackOf (dbOf c) orgId sessionId rows) :
    rows.Pairwise fun u v => u.undoId ≠ v.undoId := by
  refine List.Pairwise.imp_of_mem ?_ h.descending
  intro u v hu hv hlt heq
  obtain ⟨v', hv', hid, -, -, hposition⟩ := h.row hv
  rw [← hposition, h.position hc hu hv' (hid.trans heq.symm)] at hlt
  exact lt_irrefl _ hlt

/-- Where a walk is on its stack. -/
theorem At.stack (hpast : past <+: pastOf t c) (h : At orgId sessionId past entry) :
    ∃ higher u lower, StackOf (dbOf c) orgId sessionId (higher ++ u :: lower) ∧
      entry = mapUndoRow u ∧ Walked orgId sessionId past (higher.map mapUndoRow)
        ((u :: lower).map mapUndoRow) := by
  obtain ⟨-, before, rest, hwalked⟩ := h
  obtain ⟨rows, hrows, hstack⟩ :=
    loaded_stack hc (succeeded_iff_done.mpr (hpast.subset hwalked.loaded))
  obtain ⟨higher, tail, rfl, rfl, htail⟩ := List.map_eq_append_iff.mp hrows.symm
  obtain ⟨u, lower, rfl, rfl, rfl⟩ := List.map_eq_cons_iff.mp htail
  exact ⟨higher, u, lower, hstack, rfl, hwalked⟩

/-- The row of the entry that a walk is at. -/
theorem At.row (hpast : past <+: pastOf t c) (h : At orgId sessionId past entry) :
    ∃ u ∈ (dbOf c).undo, u.undoId = entry.undoId ∧ u.orgId = orgId ∧ u.sessionId = sessionId := by
  obtain ⟨higher, u, lower, hstack, rfl, -⟩ := h.stack hc hpast
  obtain ⟨u', hu', hid, horg, hsession, -⟩ := hstack.row (u := u) (by simp)
  exact ⟨u', hu', hid, horg, hsession⟩

theorem post_at {next : Except UndoLogError HttpResponse → (system S).Prog}
    (hcall : c.calls t = some (.call (.app (.post endpoint undoId args)) next)) :
    ∃ orgId sessionId entry, Started c t (.compensateSession orgId sessionId) ∧
      At orgId sessionId (pastOf t c) entry ∧
      S.compensations.endpointFor entry.compensation.fnName = some endpoint ∧
      undoId = entry.undoId ∧ args = entry.compensation.args := by
  obtain ⟨op, hstart, hpre⟩ := (sagaContract S).pre_of_call hc.coherent hcall
  cases op with
  | compensateSession orgId sessionId =>
    obtain ⟨entry, hat, hrest⟩ := hpre
    exact ⟨orgId, sessionId, entry, hstart, hat, hrest⟩
  | _ => cases hpre

theorem post_row {reply : Except UndoLogError HttpResponse}
    (hran : Event.ran (M := system S) t (.app (.post endpoint undoId args)) reply ∈ c.trace) :
    ∃ u ∈ (dbOf c).undo, u.undoId = undoId ∧ u.compensationArgs = args := by
  obtain ⟨before, after, hsplit⟩ := List.append_of_mem hran
  obtain ⟨d, choice, d', hrec⟩ := hc.recorded hsplit
  obtain ⟨o, next, -, hcall, -⟩ := hrec.step.of_ran hrec.trace'
  obtain ⟨orgId, sessionId, entry, -, hat, -, rfl, rfl⟩ := post_at hrec.reachable hcall
  obtain ⟨higher, u, lower, hstack, rfl, -⟩ := hat.stack hc (hrec.run.trace.filterMap _)
  obtain ⟨u', hu', hcore⟩ := hstack.registered u (by simp)
  exact ⟨u', hu', (congrArg (fun u : UndoRow => u.undoId) hcore :),
    (congrArg (fun u : UndoRow => u.compensationArgs) hcore :)⟩

end

/-! ## Marked entries -/

section

variable (hc : Reaches S guard c)
include hc

theorem marked_row (h : Succeeded c t (.markCompensated orgId undoId) ()) :
    ∃ u ∈ (dbOf c).undo, u.undoId = undoId ∧ u.state ≠ .pending := by
  refine h.since hc ?_ ?_
  · intro c c' o hc _ htrans hquery
    obtain ⟨o', sessionId, -, rfl, entry, hat, rfl, -⟩ := hquery.saga_pre hc rfl
    obtain ⟨u, hu, hid, horg, -⟩ := hat.row hc List.prefix_rfl
    refine ⟨_, hquery.undo_after hu, ?_⟩
    rw [Query.undoAfter, updateRow_of_pos (ofUndo_iff.mpr ⟨hid, horg⟩)]
    exact ⟨hid, by rintro ⟨⟩⟩
  · rintro c choice c' - - htrans ⟨u, hu, hid, hstate⟩
    obtain ⟨u', hu', hstep⟩ := undo_step htrans hu
    refine ⟨u', hu', (core_undo hstep.core).1.trans hid, ?_⟩
    rcases hstep with rfl | ⟨t, o, q, r, -, -, hchange⟩
    · exact hstate
    · cases hchange with
      | same => exact hstate
      | compensated | failed => rintro ⟨⟩

theorem failed_marked :
    ∀ u ∈ (dbOf c).undo, u.state = .failed → ∃ t reason,
      Succeeded c t (.markCompensationFailed u.orgId u.undoId reason) () := by
  refine rows_invariant hc (fun c h u hu => absurd hu (h.undo u)) ?_
  intro c choice c' hc ih _ htrans u' hu' hfailed
  have hkeep : ∀ u ∈ (dbOf c).undo, u.state = .failed → ∃ t reason,
      Succeeded c' t (.markCompensationFailed u.orgId u.undoId reason) () := by
    intro u hu hstate
    obtain ⟨t, reason, hran⟩ := ih u hu hstate
    exact ⟨t, reason, htrans.subset hran⟩
  rcases undo_origin htrans hu' with ⟨u, hu, hstep⟩ | ⟨t, o, q, r, push, -, -, -, rfl⟩
  · rcases hstep with rfl | ⟨t, o, q, r, -, hquery, hchange⟩
    · exact hkeep _ hu hfailed
    · cases hchange with
      | same => exact hkeep _ hu hfailed
      | compensated => cases hfailed
      | @failed _ _ reason _ hrow =>
        obtain ⟨rfl, rfl⟩ := ofUndo_iff.mp hrow
        exact ⟨t, reason, hquery.ran⟩
  · cases hfailed

theorem undo_states : ∀ u ∈ (dbOf c).undo, u.state ∈ [.pending, .compensated, .failed] := by
  refine rows_invariant hc (fun c h u hu => absurd hu (h.undo u)) ?_
  intro c choice c' _ ih _ htrans u' hu'
  rcases undo_origin htrans hu' with ⟨u, hu, hstep⟩ | ⟨t, o, q, r, push, -, -, -, rfl⟩
  · rcases hstep with rfl | ⟨t, o, q, r, -, -, hchange⟩
    · exact ih _ hu
    · cases hchange with
      | same => exact ih _ hu
      | compensated | failed => simp
  · simp [Push.row, newUndoRow]

/-! ## Compensations one after another -/

/-- The call compensates a session and has not ended. -/
def Compensating (c : State S) (t : ℕ) (orgId : OrgId) (sessionId : SessionId) : Prop :=
  Started c t (.compensateSession orgId sessionId) ∧ (c.calls t).isSome = true

instance (c : State S) (orgId : OrgId) (sessionId : SessionId) :
    Decidable (∀ t, ¬ Compensating c t orgId sessionId) :=
  decidable_of_iff (c.trace.all (fun
      | .started t (.compensateSession o s) =>
        ¬ (o = orgId ∧ s = sessionId ∧ (c.calls t).isSome = true)
      | _ => true) = true) <| by
    rw [List.all_eq_true]
    constructor
    · rintro hall t ⟨hstart, hrunning⟩
      exact of_decide_eq_true (hall _ hstart) ⟨rfl, rfl, hrunning⟩
    · intro hnone event hmem
      split
      · next t o s =>
        refine decide_eq_true ?_
        rintro ⟨rfl, rfl, hrunning⟩
        exact hnone t ⟨hmem, hrunning⟩
      · rfl

/-- A compensation of a session starts when no other one of it is running. -/
def NonOverlapping : Guard (system S)
  | c, .start (.compensateSession orgId sessionId) => ∀ t, ¬ Compensating c t orgId sessionId
  | _, _ => True

instance : ∀ (c : State S) (choice : Choice (system S)), Decidable (NonOverlapping c choice)
  | c, .start op =>
    match op with
    | .compensateSession orgId sessionId =>
      inferInstanceAs (Decidable (∀ t, ¬ Compensating c t orgId sessionId))
    | .intercept _ | .commit _ _ _ | .fail _ _ _ | .approve _ _ _ _ | .reject _ _ _
    | .listPendingApprovals _ | .processTimeouts _ | .processPendingTimeouts => .isTrue trivial
  | _, .run _ _ | _, .finish _ | _, .crash _ | _, .environment _ => .isTrue trivial

theorem Compensating.before (htrans : Transition c choice c')
    (h : Compensating c' t orgId sessionId) : Compensating c t orgId sessionId ∨
      choice = .start (.compensateSession orgId sessionId) ∧ t = c.next := by
  rcases htrans.started h.1 with hstart | hnew
  · exact .inl ⟨hstart, hc.running_before htrans hstart h.2⟩
  · exact .inr hnew

theorem one_compensation
    (hguard : ∀ (c : State S) choice, guard c choice → NonOverlapping c choice) :
    ∀ t t', Compensating c t orgId sessionId → Compensating c t' orgId sessionId → t = t' := by
  refine hc.invariant ?_ ?_
  · rintro w - t t' ⟨hstart, -⟩
    cases hstart
  · intro c choice c' hc ih hallowed htrans t t' ht ht'
    rcases ht.before hc htrans with hold | ⟨rfl, rfl⟩
    · rcases ht'.before hc htrans with hold' | ⟨rfl, -⟩
      · exact ih t t' hold hold'
      · exact absurd hold (hguard _ _ hallowed t)
    · rcases ht'.before hc htrans with hold' | ⟨-, rfl⟩
      · exact absurd hold' (hguard _ _ hallowed t')
      · rfl

theorem marked_apart (hguard : ∀ (c : State S) choice, guard c choice → NonOverlapping c choice)
    (hload : Succeeded c t (.loadUndoStack orgId sessionId) entries)
    (hrunning : (c.calls t).isSome = true) (hentry : entry ∈ entries) {t' : ℕ} {orgId' : OrgId} :
    Succeeded c t' (.markCompensated orgId' entry.undoId) () → t' = t := by
  refine hload.while_running hc hrunning ?_ ?_
  · intro c c' o hc hquery hmarked
    -- an entry that was marked before is not loaded
    rw [Succeeded, hquery.trace] at hmarked
    rcases List.mem_append.mp hmarked with hold | hnew
    · obtain ⟨u, hu, hid, hstate⟩ := marked_row hc hold
      obtain ⟨rfl, -⟩ := loadUndoStack_ok.mp hquery.tx
      obtain ⟨v, hv, rfl⟩ := List.mem_map.mp hentry
      obtain ⟨hmem, -, -, hpending⟩ := mem_pendingStack.mp hv
      obtain rfl := (undoIds_keyed hc).eq hu hmem hid
      exact absurd hpending hstate
    · cases List.mem_singleton.mp hnew
  · intro c choice c' hc hallowed htrans hload hrunning ih hmarked
    obtain ⟨event, htrace⟩ := htrans.trace
    rw [Succeeded, htrace] at hmarked
    rcases List.mem_snoc.mp hmarked with hold | rfl
    · exact ih hold
    · -- the call that marks the entry compensates the same session
      obtain ⟨o, s, before, hstart, -, rfl, rfl, -⟩ := hload.saga_pre hc rfl
      obtain ⟨o', rfl, hquery⟩ := QueryStep.of_trace htrans htrace
      obtain ⟨_, s', hstart', rfl, entry', hat, hid', -⟩ := hquery.saga_pre hc rfl
      obtain ⟨u, hu, huid, horg, hsession⟩ := hat.row hc List.prefix_rfl
      obtain ⟨rows, rfl, hstack⟩ := loaded_stack hc hload
      obtain ⟨v, hv, rfl⟩ := List.mem_map.mp hentry
      obtain ⟨v', hv', hvid, horg', hsession', -⟩ := hstack.row hv
      obtain rfl := (undoIds_keyed hc).eq hu hv' (huid.trans (hid'.symm.trans hvid.symm))
      obtain rfl := horg.symm.trans horg'
      obtain rfl := hsession.symm.trans hsession'
      exact one_compensation hc hguard t' t ⟨hstart', hquery.running⟩ ⟨hstart, hrunning⟩

end

end UndoLog
