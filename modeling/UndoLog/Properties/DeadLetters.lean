import Mathlib.Algebra.Order.BigOperators.Group.List
import Mathlib.Algebra.Order.Group.Nat
import UndoLog.Properties.CompensationResult
import UndoLog.Store.DeadLetters

/-!
# Failed compensations and dead letters

A compensation that halts has marked one entry as failed. The orchestrator has no access to
the dead letters, so a record for the entry is there afterwards only if it was before.
-/

namespace UndoLog

open Concurrent Machine Relational

variable {S : Setup} {orgId : OrgId} {sessionId : SessionId}

/-- The running system and the table of dead letters. -/
structure Deployment where
  world : World
  letters : List DeadLetterRecord

/-- Run alone, `compensate_session` can return `Ok(Halted)`. -/
def HaltsIn (S : Setup) (orgId : OrgId) (sessionId : SessionId) (d d' : Deployment) : Prop :=
  Reports S orgId sessionId d.world .halted d'.world ∧ d'.letters = d.letters

/-- A failed undo entry is listed among the failed dead letters of its organisation. -/
def DeadLettered (orgId : OrgId) (sessionId : SessionId) (letters : List DeadLetterRecord)
    (u : UndoRow) : Prop :=
  ∃ d ∈ DeadLetterStore.listByState orgId .failed letters, d.sessionId = sessionId ∧
    d.effectId = u.effectId ∧ d.compensationFn = u.compensationFn ∧
    u.lastError = some d.errorMessage

/-- Whenever `compensate_session` halts, the entries that have failed are dead letters. -/
def NothingLost (S : Setup) (orgId : OrgId) (sessionId : SessionId) (d : Deployment) : Prop :=
  ∀ d', HaltsIn S orgId sessionId d d' →
    ∀ u ∈ becameDuring .failed d.world.db d'.world.db, DeadLettered orgId sessionId d'.letters u

/-- An undo entry that was marked as failed. -/
def UndoRow.failedWith (reason : String) (u : UndoRow) : UndoRow :=
  { u with state := .failed, lastError := some reason }

/-- The reason of an entry without an endpoint. -/
def missingEndpoint (u : UndoRow) : String :=
  "missing compensation endpoint for key " ++ u.compensationFn

/-- If the session is open and has pending entries, the highest one has no endpoint, and a
dead letter for it is already there. -/
def RecordedBefore (S : Setup) (orgId : OrgId) (sessionId : SessionId) (d : Deployment) : Prop :=
  ∀ session u rest, d.world.db.sessions.find? (ofSession orgId sessionId) = some session →
    session.state.isTerminal = false → pendingStack orgId sessionId d.world.db = u :: rest →
    S.compensations.endpointFor u.compensationFn = none ∧
      DeadLettered orgId sessionId d.letters (u.failedWith (missingEndpoint u))

theorem exists_fresh_message (letters : List DeadLetterRecord) :
    ∃ message, message ≠ "" ∧ ∀ d ∈ letters, d.errorMessage ≠ message := by
  let size := (letters.map fun d => d.errorMessage.length).sum
  have hlength : (String.ofList (List.replicate (size + 1) 'a')).length = size + 1 := by simp
  refine ⟨String.ofList (List.replicate (size + 1) 'a'), fun hempty => ?_, fun d hd heq => ?_⟩
  · rw [hempty] at hlength
    cases hlength
  · have hle : d.errorMessage.length ≤ size :=
      List.single_le_sum (fun _ _ => Nat.zero_le _) _ (List.mem_map_of_mem hd)
    rw [heq, hlength] at hle
    omega

theorem exists_halts {d : Deployment} {session : SessionRecord} {u : UndoRow} {rest : List UndoRow}
    {reason : String} (hfind : d.world.db.sessions.find? (ofSession orgId sessionId) = some session)
    (hopen : session.state.isTerminal = false)
    (hstack : pendingStack orgId sessionId d.world.db = u :: rest)
    (hfails : FailsWith S.compensations (mapUndoRow u) reason) :
    ∃ d', HaltsIn S orgId sessionId d d' ∧
      u.failedWith reason ∈ becameDuring .failed d.world.db d'.world.db := by
  have hu : u ∈ pendingStack orgId sessionId d.world.db := by rw [hstack]; exact List.mem_cons_self
  obtain ⟨hmem, -, horg, hpending⟩ := mem_pendingStack.mp hu
  obtain ⟨db', hwalks, hundo⟩ : ∃ db', Walks S.compensations orgId sessionId
      ((pendingStack orgId sessionId d.world.db).map mapUndoRow) d.world.db .halted db' ∧
      db'.undo = updateWhere (ofUndo orgId u.undoId) (UndoRow.failedWith reason)
        d.world.db.undo := by
    have hentry := pendingStack_open (List.mem_map_of_mem hu)
    rw [hstack]
    exact ⟨_, .halted hentry hfails rfl rfl rfl, rfl⟩
  refine ⟨⟨{ d.world with db := db' }, d.letters⟩,
    ⟨reports_iff.mpr ⟨session, hfind, .inr ⟨hopen, db', hwalks, rfl⟩⟩, rfl⟩,
    mem_becameDuring.mpr ⟨?_, rfl, u, hmem, rfl, ?_⟩⟩
  · change _ ∈ db'.undo
    rw [hundo]
    exact mem_updateWhere.mpr ⟨u, hmem, updateRow_of_pos (decide_eq_true ⟨rfl, horg⟩)⟩
  · rw [hpending]
    rintro ⟨⟩

theorem failed_of_missingEndpoint {db db' : Db} {u : UndoRow} {rest : List UndoRow}
    (hkeyed : Keyed UndoRow.undoId db.undo) (hstack : pendingStack orgId sessionId db = u :: rest)
    (hendpoint : S.compensations.endpointFor u.compensationFn = none)
    (hwalks : Walks S.compensations orgId sessionId
      ((pendingStack orgId sessionId db).map mapUndoRow) db .halted db')
    {u' : UndoRow} (hu' : u' ∈ becameDuring .failed db db') :
    u' = u.failedWith (missingEndpoint u) := by
  have hu : u ∈ pendingStack orgId sessionId db := by rw [hstack]; exact List.mem_cons_self
  obtain ⟨higher, entry, lower, reason, db₁, db₂, hentries, hknown, -, hfails, hentry, heffect,
    hsession⟩ := walks_halted_iff.mp hwalks
  rw [hstack, List.map_cons] at hentries
  cases higher with
  | cons e higher =>
    -- the highest entry would have an endpoint
    obtain ⟨rfl, -⟩ := List.cons.inj hentries
    have hsome := hknown _ List.mem_cons_self (pendingStack_open (List.mem_map_of_mem hu))
    change (S.compensations.endpointFor u.compensationFn).isSome = true at hsome
    rw [hendpoint] at hsome
    cases hsome
  | nil =>
    obtain ⟨rfl, -⟩ := List.cons.inj hentries
    obtain rfl : reason = missingEndpoint u := (failsWith_of_none hendpoint).mp hfails
    rw [markEntries_nil] at hentry
    cases hentry
    cases heffect
    cases hsession
    obtain ⟨hmem, hfailed, v, hv, hid, hstate⟩ := mem_becameDuring.mp hu'
    obtain ⟨x, hx, rfl⟩ := mem_updateWhere.mp hmem
    cases hrow : ofUndo orgId (mapUndoRow u).undoId x with
    | true =>
      rw [updateRow_of_pos hrow]
      rw [hkeyed.eq hx (mem_pendingStack.mp hu).1 (ofUndo_iff.mp hrow).1]
      rfl
    | false =>
      rw [updateRow_of_neg hrow] at hid hfailed
      rw [hkeyed.eq hv hx hid] at hstate
      exact absurd hfailed hstate

/-- No failed compensation is lost, if and only if the one that can fail was recorded
before. -/
theorem nothingLost_iff {d : Deployment} (hkeyed : Keyed UndoRow.undoId d.world.db.undo) :
    NothingLost S orgId sessionId d ↔ RecordedBefore S orgId sessionId d := by
  constructor
  · intro hlost session u rest hfind hopen hstack
    cases hendpoint : S.compensations.endpointFor u.compensationFn with
    | none =>
      obtain ⟨d', hhalts, hfailed⟩ := exists_halts hfind hopen hstack
        ((failsWith_of_none hendpoint).mpr rfl)
      have hletter := hlost d' hhalts _ hfailed
      rw [hhalts.2] at hletter
      exact ⟨rfl, hletter⟩
    | some endpoint =>
      -- the endpoint fails with a message of its own
      obtain ⟨message, hne, hfresh⟩ := exists_fresh_message d.letters
      have hfails : FailsWith S.compensations (mapUndoRow u) message :=
        (failsWith_of_some (Option.isSome_iff_exists.mpr ⟨endpoint, hendpoint⟩)).mpr
          ⟨message, ⟨.failure message, .inr rfl⟩, (if_neg hne).symm⟩
      obtain ⟨d', hhalts, hfailed⟩ := exists_halts hfind hopen hstack hfails
      obtain ⟨letter, hletter, -, -, -, hmessage⟩ := hlost d' hhalts _ hfailed
      rw [hhalts.2] at hletter
      obtain ⟨hmem, -⟩ := DeadLetterStore.mem_listByState.mp hletter
      exact absurd (Option.some.inj hmessage).symm (hfresh letter hmem)
  · rintro hbefore d' ⟨hreports, hletters⟩ u' hu'
    obtain ⟨session, hfind, ⟨-, -, hsame⟩ | ⟨hopen, db', hwalks, hw⟩⟩ := reports_iff.mp hreports
    · rw [hsame, becameDuring_of_eq hkeyed rfl] at hu'
      cases hu'
    · cases hstack : pendingStack orgId sessionId d.world.db with
      | nil =>
        rw [hstack] at hwalks
        cases hwalks
      | cons u rest =>
        obtain ⟨hendpoint, hletter⟩ := hbefore session u rest hfind hopen hstack
        rw [hw] at hu'
        rw [failed_of_missingEndpoint hkeyed hstack hendpoint hwalks hu', hletters]
        exact hletter

/-- A session whose only entry has no endpoint, without dead letters. -/
theorem nothingLost_iff_executedCall : ∃ c, Reaches (sample .postgres) unguarded c ∧
      pendingStack sampleOrg ⟨2⟩ (dbOf c) ≠ [] ∧
      (NothingLost (sample .postgres) sampleOrg ⟨2⟩ ⟨c.store, []⟩ ↔
        RecordedBefore (sample .postgres) sampleOrg ⟨2⟩ ⟨c.store, []⟩) := by
  obtain ⟨c, hc, htest⟩ := exists_sample unguarded 1780271999 (.compensable sampleCompensation)
    executedCall (fun c => !(pendingStack sampleOrg ⟨2⟩ (dbOf c)).isEmpty) (by decide +kernel)
  refine ⟨c, hc, ?_, nothingLost_iff (undoIds_keyed hc)⟩
  simpa using htest

/-- The compensation of that session halts, and its failed entry is lost. -/
theorem nothingLost_fails_executedCall : ∃ c, Reaches (sample .postgres) unguarded c ∧
      ¬ NothingLost (sample .postgres) sampleOrg ⟨2⟩ ⟨c.store, []⟩ := by
  obtain ⟨c, hc, htest⟩ := exists_sample unguarded 1780271999 (.compensable sampleCompensation)
    executedCall (fun c =>
        reportsTest (sample .postgres) (List.replicate 5 {}) sampleOrg ⟨2⟩ .halted
          (fun w' => !(becameDuring .failed (dbOf c) w'.db).isEmpty) c.store) (by decide +kernel)
  obtain ⟨w', hreports, hfailed⟩ := exists_reports_of_test htest
  obtain ⟨u, hu⟩ := List.exists_mem_of_ne_nil (becameDuring .failed (dbOf c) w'.db)
    (by simpa using hfailed)
  refine ⟨c, hc, fun hlost => ?_⟩
  obtain ⟨letter, hletter, -⟩ := hlost ⟨w', []⟩ ⟨hreports, rfl⟩ u hu
  cases (DeadLetterStore.mem_listByState.mp hletter).1

end UndoLog
