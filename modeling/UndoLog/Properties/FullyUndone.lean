import UndoLog.Engine.Compensation
import UndoLog.Engine.Known
import UndoLog.Properties.FinishedSessions

/-!
# Compensated sessions are fully undone

A failure is recorded in three statements: on the entry, on the effect and on the session. A
walk that is cut in between leaves a failed entry in an open session, and the next walk, which
loads pending entries only, does not see it. Nor does a walk see the entries that another
organisation has pushed under the identifier of the session.
-/

namespace UndoLog

open Concurrent Machine Relational

variable {S : Setup} {guard : Guard (system S)} {c c' : State S} {choice : Choice (system S)}

/-- No undo entry of the session is left to be undone. -/
def FullyUndone (db : Db) (sessionId : SessionId) : Prop :=
  ∀ u ∈ db.undo, u.sessionId = sessionId → u.state ∉ [.pending, .running, .failed]

instance (db : Db) (sessionId : SessionId) : Decidable (FullyUndone db sessionId) := by
  unfold FullyUndone
  infer_instance

/-- The session has become compensated. -/
structure BecameCompensated (db db' : Db) (s : SessionRecord) : Prop where
  stored : s ∈ db'.sessions
  state : s.state = .compensated
  before : ∀ s₀ ∈ db.sessions, s₀.sessionId = s.sessionId → s₀.state ≠ .compensated

/-! ## The runs of the property -/

/-- The session that a statement pushes an undo entry for. -/
def Stmt.pushesFor : Stmt → Option (OrgId × SessionId)
  | .db (.insertUndo call _ _ _) => some (call.orgId, call.sessionId)
  | _ => none

/-- No undo entry is pushed while its session is being compensated. -/
def PushesApart (c : State S) (_ : ℕ) (st : (system S).Stmt) : Prop :=
  ∀ key ∈ Stmt.pushesFor st, ∀ t, ¬ Compensating c t key.1 key.2

instance (c : State S) (t : ℕ) (st : (system S).Stmt) : Decidable (PushesApart c t st) := by
  unfold PushesApart
  infer_instance

/-- A compensation runs without another one of its session and without new entries. -/
def CompensatesApart : Guard (system S) := fun c choice =>
  NonOverlapping c choice ∧ onStatements PushesApart c choice

instance (c : State S) (choice : Choice (system S)) : Decidable (CompensatesApart c choice) :=
  inferInstanceAs (Decidable (_ ∧ _))

/-- The call has marked an entry as failed. -/
def Failing (c : State S) (t : ℕ) : Prop :=
  ∃ orgId undoId reason, Succeeded c t (.markCompensationFailed orgId undoId reason) ()

/-- The call has halted its session. -/
def HaltedBy (c : State S) (t : ℕ) : Prop :=
  ∃ orgId sessionId reason, Succeeded c t (.setHalted orgId sessionId reason) ()

instance (c : State S) (t : ℕ) : Decidable (Failing c t) :=
  decidable_of_iff (c.trace.any (fun
      | .ran u (.db (.markCompensationFailed _ _ _)) (.ok _) => u = t
      | _ => false) = true) <| by
    rw [List.any_eq_true]
    constructor
    · rintro ⟨event, hmem, htest⟩
      split at htest
      · obtain rfl := of_decide_eq_true htest
        exact ⟨_, _, _, hmem⟩
      · cases htest
    · rintro ⟨orgId, undoId, reason, hmem⟩
      exact ⟨_, hmem, decide_eq_true rfl⟩

instance (c : State S) (t : ℕ) : Decidable (HaltedBy c t) :=
  decidable_of_iff (c.trace.any (fun
      | .ran u (.db (.setHalted _ _ _)) (.ok _) => u = t
      | _ => false) = true) <| by
    rw [List.any_eq_true]
    constructor
    · rintro ⟨event, hmem, htest⟩
      split at htest
      · obtain rfl := of_decide_eq_true htest
        exact ⟨_, _, _, hmem⟩
      · cases htest
    · rintro ⟨orgId, sessionId, reason, hmem⟩
      exact ⟨_, hmem, decide_eq_true rfl⟩

/-- Once a call has marked an entry as failed, its statements do not fail, and it does not
disappear before it has halted the session. -/
def UncutFailures : Guard (system S)
  | c, .run t o => Failing c t → o.fault = false
  | c, .crash t => Failing c t → HaltedBy c t
  | _, _ => True

instance : ∀ (c : State S) (choice : Choice (system S)), Decidable (UncutFailures c choice)
  | c, .run t o => inferInstanceAs (Decidable (Failing c t → o.fault = false))
  | c, .crash t => inferInstanceAs (Decidable (Failing c t → HaltedBy c t))
  | _, .start _ | _, .finish _ | _, .environment _ => .isTrue trivial

/-- An undo entry is pushed by the organisation that has the session. -/
def OwnPushes (c : State S) (_ : ℕ) (st : (system S).Stmt) : Prop :=
  ∀ key ∈ Stmt.pushesFor st, HasSession (dbOf c) key.1 key.2

instance (c : State S) (t : ℕ) (st : (system S).Stmt) : Decidable (OwnPushes c t st) := by
  unfold OwnPushes HasSession
  infer_instance

/-- A compensation runs apart, no failure is cut, and entries are pushed for own sessions. -/
def UncutApart : Guard (system S) := fun c choice =>
  CompensatesApart c choice ∧ UncutFailures c choice ∧ onStatements OwnPushes c choice

instance (c : State S) (choice : Choice (system S)) : Decidable (UncutApart c choice) :=
  inferInstanceAs (Decidable (_ ∧ _ ∧ _))

/-! ## Loaded entries -/

variable {t : ℕ} {orgId : OrgId} {sessionId : SessionId} {entries : List UndoEntry}

section

variable (hc : Reaches S guard c)
  (hguard : ∀ (c : State S) choice, guard c choice → CompensatesApart c choice)
include hc hguard

theorem pending_loaded (hload : Succeeded c t (.loadUndoStack orgId sessionId) entries)
    (hrunning : (c.calls t).isSome = true) :
    ∀ u ∈ (dbOf c).undo, u.orgId = orgId → u.sessionId = sessionId → u.state = .pending →
      ∃ e ∈ entries, e.undoId = u.undoId := by
  refine hload.while_running hc hrunning ?_ ?_
  · intro c c' o hc hquery u hu horg hsession hpending
    obtain ⟨rfl, hdb⟩ := loadUndoStack_ok.mp hquery.tx
    rw [hdb] at hu
    exact ⟨mapUndoRow u, List.mem_map_of_mem
      (mem_pendingStack.mpr ⟨hu, hsession, horg, hpending⟩), rfl⟩
  · intro c choice c' hc hallowed htrans hload hrunning ih u' hu' horg hsession hpending
    rcases undo_origin htrans hu' with ⟨u, hu, hstep⟩ |
      ⟨t', o', q, r, push, rfl, hquery, hpush, rfl⟩
    · -- only pending entries are pending afterwards
      obtain ⟨hid, horg', hsession', -⟩ := core_undo hstep.core
      rw [horg'] at horg
      rw [hsession'] at hsession
      have hbefore : u.state = .pending := by
        rcases hstep with rfl | ⟨t', o', q, r, -, -, hchange⟩
        · exact hpending
        · cases hchange with
          | same => exact hpending
          | compensated | failed => cases hpending
      obtain ⟨e, he, heid⟩ := ih u hu horg hsession hbefore
      exact ⟨e, he, heid.trans hid.symm⟩
    · have hapart := hquery.guarded (hguard _ _ hallowed).2
      obtain ⟨o, s, -, hstart, -, rfl, rfl, -⟩ := hload.saga_pre hc rfl
      cases q with
      | insertUndo call effectId compensation undoId =>
        cases hpush
        refine absurd ?_ (hapart _ rfl t)
        change Compensating c t call.orgId call.sessionId
        rw [show call.orgId = orgId from horg, show call.sessionId = sessionId from hsession]
        exact ⟨hstart, hrunning⟩
      | _ => cases hpush

theorem not_pending_of_walked (hwalked : Walked orgId sessionId (pastOf t c) entries [])
    (hrunning : (c.calls t).isSome = true) {u : UndoRow} (hu : u ∈ (dbOf c).undo)
    (horg : u.orgId = orgId) (hsession : u.sessionId = sessionId) : u.state ≠ .pending := by
  intro hpending
  have hload : Succeeded c t (.loadUndoStack orgId sessionId) (entries ++ []) :=
    succeeded_iff_done.mpr hwalked.loaded
  rw [List.append_nil] at hload
  obtain ⟨e, he, hid⟩ := pending_loaded hc hguard hload hrunning u hu horg hsession hpending
  have hopen : e.state.isTerminal = false := by
    obtain ⟨rows, rfl, hstack⟩ := loaded_stack hc hload
    obtain ⟨v, hv, rfl⟩ := List.mem_map.mp he
    change v.state.isTerminal = false
    rw [hstack.pending v hv]
    rfl
  obtain ⟨u', hu', hid', hstate⟩ :=
    marked_row hc (succeeded_iff_done.mpr (hwalked.marked e he hopen))
  obtain rfl := (undoIds_keyed hc).eq hu' hu (hid'.trans hid)
  exact hstate hpending

end

/-! ## Recorded failures -/

section

variable (hc : Reaches S guard c)
include hc

/-- The walk of a failed entry, and the session that it has found. -/
theorem failed_walk {undoId : UndoId} {reason : String}
    (h : Succeeded c t (.markCompensationFailed orgId undoId reason) ()) :
    ∃ sessionId, Started c t (.compensateSession orgId sessionId) ∧
      HasSession (dbOf c) orgId sessionId ∧
      ∃ u ∈ (dbOf c).undo, u.undoId = undoId ∧ u.orgId = orgId ∧ u.sessionId = sessionId := by
  obtain ⟨_, sessionId, before, hstart, hbefore, rfl, entry, hat, rfl⟩ := h.saga_pre hc rfl
  obtain ⟨-, done, rest, hwalked⟩ := id hat
  obtain ⟨record, hread, -⟩ := hwalked.session
  have hfound := session_read hc (succeeded_iff_done.mpr (hbefore.subset hread))
  exact ⟨sessionId, hstart, hfound.2.2, hat.row hc hbefore⟩

theorem halted_finished {reason : String}
    (h : Succeeded c t (.setHalted orgId sessionId reason) ()) :
    Finished (dbOf c) orgId sessionId := by
  refine h.since hc ?_ fun c choice c' _ _ htrans hfinished => hfinished.step htrans
  intro c c' o hc _ htrans hquery
  obtain ⟨_, _, hstart, rfl, rfl, undoId, reason', hdone⟩ := hquery.saga_pre hc rfl
  obtain ⟨_, hstart', ⟨s, hs, hid, horg⟩, -⟩ := failed_walk hc (succeeded_iff_done.mpr hdone)
  cases hstart.unique hc hstart'
  obtain ⟨s', hs', hid', horg', hstate⟩ := hquery.session_after hs
  refine ⟨s', hs', hid'.trans hid, horg'.trans horg, ?_⟩
  rw [hstate, Query.sessionAfter, if_pos (ofSession_iff.mpr ⟨hid, horg⟩)]
  rfl

theorem follows_ok (hguard : ∀ (c : State S) choice, guard c choice → UncutFailures c choice)
    {q : Query} {e : UndoLogError} (hq : q.followsFailure = true) :
    Event.ran (M := system S) t (.db q) (.error e) ∉ c.trace := by
  intro hran
  refine hc.since (P := fun _ => False) hran ?_ fun _ _ _ _ _ _ h => h
  intro c choice c' hc hallowed htrans htrace
  obtain ⟨o, next, rfl, hcall, hexec⟩ := htrans.of_ran htrace
  have hfailing : Failing c t := by
    cases q with
    | markEffectCompensationFailed orgId effectId =>
      obtain ⟨_, _, -, rfl, undoId, reason, hdone⟩ := saga_pre_of_call hc hcall rfl
      exact ⟨_, undoId, reason, succeeded_iff_done.mpr hdone⟩
    | setHalted orgId sessionId reason =>
      obtain ⟨_, _, -, rfl, rfl, undoId, reason, hdone⟩ := saga_pre_of_call hc hcall rfl
      exact ⟨_, undoId, reason, succeeded_iff_done.mpr hdone⟩
    | _ => cases hq
  have hreply := Query.run_reply (hguard _ _ hallowed hfailing) hexec
  cases q with
  | markEffectCompensationFailed | setHalted => cases hreply
  | _ => cases hq

theorem failing_halted (hguard : ∀ (c : State S) choice, guard c choice → UncutFailures c choice) :
    ∀ t, Failing c t → (c.calls t).isSome = true ∨ HaltedBy c t := by
  refine hc.invariant ?_ ?_
  · rintro w - t ⟨_, _, _, hmem⟩
    cases hmem
  · rintro c choice c' hc ih hallowed htrans t ⟨orgId, undoId, reason, hmarked⟩
    have hkeep : HaltedBy c t → HaltedBy c' t := by
      rintro ⟨o, s, r, hhalted⟩
      exact ⟨o, s, r, htrans.subset hhalted⟩
    obtain ⟨event, htrace⟩ := htrans.trace
    have hmem := hmarked
    rw [Succeeded, htrace] at hmem
    rcases List.mem_snoc.mp hmem with hold | rfl
    · have hfailing : Failing c t := ⟨orgId, undoId, reason, hold⟩
      rcases ih t hfailing with hrunning | hhalted
      · rcases htrans.ended hrunning with hrunning' | ⟨r, rfl, hdone⟩ | rfl
        · exact .inl hrunning'
        · -- a call that returns has halted the session
          obtain ⟨op, hstart, hpost⟩ := (sagaContract S).post_of_done hc.coherent hdone
          obtain ⟨sessionId, hstart', -⟩ := failed_walk hc hold
          obtain rfl := hstart'.unique hc hstart
          obtain ⟨r', hpost, -⟩ := hpost
          rcases hpost undoId reason (succeeded_iff_done.mp hold) with ⟨reason', hhalted⟩ | herror
          · exact .inr (hkeep ⟨orgId, sessionId, reason', succeeded_iff_done.mpr hhalted⟩)
          · obtain ⟨q, e, hq, hran⟩ := herror
            exact absurd (mem_ranBy.mp hran) (follows_ok hc hguard hq)
        · exact .inr (hkeep (hguard _ _ hallowed hfailing))
      · exact .inr (hkeep hhalted)
    · obtain ⟨o, rfl, hquery⟩ := QueryStep.of_trace htrans htrace
      cases htrans with
      | run hcall hexec => exact .inl (by simp)

/-- When the walk of a call is at its end and the session is open, no entry of the session
has failed. -/
theorem not_failed_of_walked
    (hapart : ∀ (c : State S) choice, guard c choice → CompensatesApart c choice)
    (huncut : ∀ (c : State S) choice, guard c choice → UncutFailures c choice)
    (hcompensating : Compensating c t orgId sessionId)
    (hwalked : Walked orgId sessionId (pastOf t c) entries [])
    (hopen : ¬ Finished (dbOf c) orgId sessionId) {u : UndoRow} (hu : u ∈ (dbOf c).undo)
    (horg : u.orgId = orgId) (hsession : u.sessionId = sessionId) : u.state ≠ .failed := by
  intro hfailed
  obtain ⟨t', reason, hmarked⟩ := failed_marked hc u hu hfailed
  obtain ⟨sessionId', hstart, -, v, hv, hid, -, hsession'⟩ := failed_walk hc hmarked
  obtain rfl := (undoIds_keyed hc).eq hv hu hid
  obtain rfl := hsession.symm.trans hsession'
  subst horg
  rcases failing_halted hc huncut t' ⟨_, _, _, hmarked⟩ with hrunning | ⟨o, s, reason', hhalted⟩
  · -- a running call that has marked the entry is this one, and its walk has no failure
    obtain rfl := one_compensation hc (fun d choice h => (hapart d choice h).1) t' t
      ⟨hstart, hrunning⟩ hcompensating
    cases hwalked.unfailed _ (succeeded_iff_done.mp hmarked)
  · obtain ⟨_, _, -, hstart', -, rfl, rfl, -⟩ := hhalted.saga_pre hc rfl
    cases hstart.unique hc hstart'
    exact hopen (halted_finished hc hhalted)

end

/-! ## Sessions that become compensated -/

/-- The organisation of an undo entry has the session. -/
theorem undo_owned (hc : Reaches S UncutApart c) :
    ∀ u ∈ (dbOf c).undo, HasSession (dbOf c) u.orgId u.sessionId := by
  refine hc.invariant (fun w hinit u hu => ?_) ?_
  · obtain ⟨now, partitions, orgs, hdb, -⟩ := hinit
    rw [show (dbOf (Config.initial w : State S)).undo = _ from congrArg Db.undo hdb] at hu
    cases hu
  · intro c choice c' hc ih hallowed htrans u' hu'
    rcases undo_origin htrans hu' with ⟨u, hu, hstep⟩ | ⟨t, o, q, r, push, rfl, hquery, hpush, rfl⟩
    · obtain ⟨-, horg, hsession, -⟩ := core_undo hstep.core
      rw [horg, hsession]
      exact (ih u hu).step htrans
    · cases q with
      | insertUndo =>
        cases hpush
        exact (hquery.guarded hallowed.2.2 _ rfl).step htrans
      | _ => cases hpush

theorem setCompensated_of_after {q : Query} {s : SessionRecord}
    (h : q.sessionAfter s = .compensated) (hbefore : s.state ≠ .compensated) :
    q = .setCompensated s.orgId s.sessionId ∧ s.state.isTerminal = false := by
  cases q with
  | setCompensated orgId sessionId =>
    rw [Query.sessionAfter] at h
    split at h
    · next hin =>
      obtain ⟨hs, hstate⟩ := ofSessionIn_iff.mp hin
      obtain ⟨rfl, rfl⟩ := hs
      have hopen : ∀ state ∈ [SessionState.active, .failed, .compensating],
          state.isTerminal = false := by decide
      exact ⟨rfl, hopen _ hstate⟩
    · exact absurd h hbefore
  | setAwaitingApproval | approve | reject | setHalted =>
    rw [Query.sessionAfter] at h
    split at h
    · cases h
    · exact absurd h hbefore
  | _ => exact absurd h hbefore

/-- In every run that cuts no failure in half and pushes entries for own sessions only, a
session that becomes compensated is fully undone. -/
theorem fullyUndone_of_uncutFailures (hc : Reaches S UncutApart c) (hallowed : UncutApart c choice)
    (htrans : Transition c choice c') {s : SessionRecord}
    (h : BecameCompensated (dbOf c) (dbOf c') s) : FullyUndone (dbOf c') s.sessionId := by
  rcases session_origin htrans h.stored with ⟨s₀, hs₀, hstep⟩ | ⟨t, o, orgId, sessionId, -, -, rfl⟩
  · have hbefore := h.before s₀ hs₀ hstep.sessionId.symm
    rcases hstep.state with hsame | ⟨t, o, q, r, rfl, hquery, hafter⟩
    · exact absurd (hsame.symm.trans h.state) hbefore
    · obtain ⟨rfl, hopen⟩ := setCompensated_of_after (hafter.symm.trans h.state) hbefore
      obtain ⟨_, _, hstart, rfl, rfl, entries, hwalked⟩ := hquery.saga_pre hc rfl
      have hnot : ¬ Finished (dbOf c) s₀.orgId s₀.sessionId := by
        rintro ⟨s₁, hs₁, hid, -, hterminal⟩
        obtain rfl := (sessions_keyed hc).eq hs₁ hs₀ hid
        rw [hopen] at hterminal
        cases hterminal
      intro u hu hsession
      rw [hstep.sessionId] at hsession
      -- the statement leaves the undo stack alone
      rcases hquery.undo_origin hu with ⟨u, hmem, rfl⟩ | ⟨push, hpush, -⟩
      · have horg : u.orgId = s₀.orgId := by
          obtain ⟨s₁, hs₁, hid, horg⟩ := undo_owned hc u hmem
          obtain rfl := (sessions_keyed hc).eq hs₁ hs₀ (hid.trans hsession)
          exact horg.symm
        have hpending := not_pending_of_walked hc (fun _ _ h => h.1) hwalked hquery.running hmem
          horg hsession
        have hfailed := not_failed_of_walked hc (fun _ _ h => h.1) (fun _ _ h => h.2.1)
          ⟨hstart, hquery.running⟩ hwalked hnot hmem horg hsession
        have hstates := undo_states hc u hmem
        simp only [List.mem_cons, List.not_mem_nil, or_false, not_or] at hstates ⊢
        rcases hstates with hstate | hstate | hstate
        · exact absurd hstate hpending
        · rw [hstate]
          exact ⟨by rintro ⟨⟩, by rintro ⟨⟩, by rintro ⟨⟩⟩
        · exact absurd hstate hfailed
      · cases hpush
  · cases h.state

/-- A compensation is cut after its first request, and a second one is about to set the
session compensated. -/
def beforeCompensated : List (Choice (system (reachableSample .postgres))) :=
  twoExecutedCalls ++ [.start (.compensateSession sampleOrg ⟨2⟩)] ++ runs 2 3 ++
    [.crash 2, .start (.compensateSession sampleOrg ⟨2⟩)] ++ runs 3 6

/-- The second compensation leaves nothing to be undone. -/
theorem fullyUndone_after_cut : ∃ (c c' : State (reachableSample .postgres))
    (choice : Choice (system (reachableSample .postgres)))
      (s : SessionRecord), Reaches (reachableSample .postgres) UncutApart c ∧ UncutApart c choice ∧
      Transition c choice c' ∧ BecameCompensated (dbOf c) (dbOf c') s ∧
      FullyUndone (dbOf c') s.sessionId := by
  obtain ⟨c, c', hc, hallowed, htrans, s, hs, hstate, hbefore⟩ := exists_transition UncutApart
    1780271999 (.compensable sampleCompensation) beforeCompensated (.run 3 ({} : Oracle))
    (fun c c' =>
      ∃ s ∈ (dbOf c').sessions, s.state = .compensated ∧
        ∀ s₀ ∈ (dbOf c).sessions, s₀.sessionId = s.sessionId → s₀.state ≠ .compensated)
    (by decide +kernel)
  have hbecame : BecameCompensated (dbOf c) (dbOf c') s := ⟨hs, hstate, hbefore⟩
  exact ⟨c, c', _, s, hc, hallowed, htrans, hbecame,
    fullyUndone_of_uncutFailures hc hallowed htrans hbecame⟩

/-- The only entry has no endpoint. A compensation is cut after it has marked the entry as
failed, and a second one finds nothing to do. -/
def cutFailure : Schedule :=
  executedCall ++ [.start (.compensateSession sampleOrg ⟨2⟩)] ++ runs 1 3 ++
    [.crash 1, .start (.compensateSession sampleOrg ⟨2⟩)] ++ runs 2 2

/-- The session becomes compensated although its entry has failed. -/
theorem fullyUndone_fails_after_cutFailure :
    ∃ (c c' : State (sample .postgres)) (choice : Choice (system (sample .postgres)))
      (s : SessionRecord),
      Reaches (sample .postgres) CompensatesApart c ∧ CompensatesApart c choice ∧
      Transition c choice c' ∧ BecameCompensated (dbOf c) (dbOf c') s ∧
      ¬ FullyUndone (dbOf c') s.sessionId := by
  obtain ⟨c, c', hc, hallowed, htrans, s, hs, hstate, hbefore, hnot⟩ := exists_transition
    CompensatesApart 1780271999 (.compensable sampleCompensation) cutFailure (.run 2 ({} : Oracle))
    (fun c c' =>
      ∃ s ∈ (dbOf c').sessions, s.state = .compensated ∧
        (∀ s₀ ∈ (dbOf c).sessions, s₀.sessionId = s.sessionId → s₀.state ≠ .compensated) ∧
        ¬ FullyUndone (dbOf c') s.sessionId)
    (by decide +kernel)
  exact ⟨c, c', _, s, hc, hallowed, htrans, ⟨hs, hstate, hbefore⟩, hnot⟩

end UndoLog
