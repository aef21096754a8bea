import Mathlib.Algebra.Group.Nat.Defs
import UndoLog.Engine.Registry
import UndoLog.Engine.Schedule
import UndoLog.Engine.UndoStack

/-!
# Descriptors on the undo stack

`push_undo_entry` writes the name, the version and the arguments of a compensation and leaves
its retry columns to their defaults. The position on the stack is the step index in a signed
column, and entries are loaded in the order of that column.
-/

namespace UndoLog

open Concurrent Machine Relational

section Load

variable {b : Backend} {call : ToolCall} {effectId : EffectId}
  {compensation : CompensationDescriptor} {undoId : UndoId} {db db' db'' : Db}
  {entries : List UndoEntry}

end Load

/-- A database with the session of the sample calls. -/
def sampleSession : Db :=
  { Db.empty 0 [] [sampleOrg] with sessions := [newSession sampleOrg ⟨2⟩ 0] }

/-- Calls of `push_undo_entry` on PostgreSQL, one after the other. -/
def pushAll (pushes : List Push) : Tx Unit :=
  pushes.forM fun p => insertUndo .postgres p.call p.effectId p.compensation p.undoId

theorem pushAll_ok {pushes : List Push} {db db' : Db} (h : pushAll pushes db = .ok ((), db')) :
    db'.undo = db.undo ++ pushes.map (Push.row .postgres db.now) := by
  induction pushes generalizing db with
  | nil =>
    cases h
    simp
  | cons p rest ih =>
    obtain ⟨_, db₁, hpush, hrest⟩ := Tx.bind_ok.mp h
    obtain ⟨-, -, rfl⟩ := insertUndo_ok hpush
    rw [ih hrest, List.append_assoc]
    rfl

/-- Steps sorted by their column are sorted as unsigned numbers exactly if they are all on one
side of the sign bit. -/
theorem pairwise_lt_iff {steps : List UInt32} (hnodup : steps.Nodup)
    (hsorted : steps.Pairwise fun m n => stepColumn .postgres n ≤ stepColumn .postgres m) :
    (steps.Pairwise fun m n => n < m) ↔
      (∀ n ∈ steps, n.toNat < 2 ^ 31) ∨ ∀ n ∈ steps, 2 ^ 31 ≤ n.toNat := by
  have hcolumn : ∀ n : UInt32, (n.toNat < 2 ^ 31 ∧ stepColumn .postgres n = n.toNat) ∨
      (2 ^ 31 ≤ n.toNat ∧ stepColumn .postgres n = n.toNat - 2 ^ 32) := by
    intro n
    change _ ∧ n.toBitVec.toInt = _ ∨ _ ∧ n.toBitVec.toInt = _
    rw [BitVec.toInt_eq_toNat_cond, UInt32.toNat_toBitVec]
    split <;> omega
  constructor
  · intro h
    cases steps with
    | nil => simp
    | cons m rest =>
      have hside : ∀ n ∈ rest, (n.toNat < 2 ^ 31 ↔ m.toNat < 2 ^ 31) := by
        intro n hn
        have hlt := UInt32.lt_iff_toNat_lt.mp ((List.pairwise_cons.mp h).1 n hn)
        have hle := (List.pairwise_cons.mp hsorted).1 n hn
        have hm := hcolumn m
        have hn := hcolumn n
        have hbound := m.toNat_lt
        omega
      simp only [List.forall_mem_cons]
      by_cases hm : m.toNat < 2 ^ 31
      · exact .inl ⟨hm, fun n hn => (hside n hn).mpr hm⟩
      · exact .inr ⟨by omega, fun n hn => Nat.le_of_not_lt fun hlt => hm ((hside n hn).mp hlt)⟩
  · intro h
    refine (hnodup.and hsorted).imp_of_mem ?_
    rintro m n hm hn ⟨hne, hle⟩
    have hne : m.toNat ≠ n.toNat := fun heq => hne (UInt32.toNat_inj.mp heq)
    have hcm := hcolumn m
    have hcn := hcolumn n
    rw [UInt32.lt_iff_toNat_lt]
    rcases h with hlow | hhigh
    · have := hlow m hm
      have := hlow n hn
      omega
    · have := hhigh m hm
      have := hhigh n hn
      omega

/-- The entries of a session are loaded with their step indices, highest first, exactly if the
step indices are all below the sign bit or all above it. -/
theorem loaded_in_step_order_iff {pushes : List Push} {orgId : OrgId} {sessionId : SessionId}
    {db db' db'' : Db} {entries : List UndoEntry}
    (hsession : ∀ p ∈ pushes, p.call.orgId = orgId ∧ p.call.sessionId = sessionId)
    (hdistinct : (pushes.map (·.call.stepIndex)).Nodup)
    (hempty : ∀ u ∈ db.undo, u.sessionId ≠ sessionId) (hpush : pushAll pushes db = .ok ((), db'))
    (hload : loadUndoStack orgId sessionId db' = .ok (entries, db'')) :
    ((entries.map fun e => (e.effectId, e.stackPosition)).Perm
        (pushes.map fun p => (p.effectId, p.call.stepIndex)) ∧
      (entries.map (·.stackPosition)).Pairwise fun m n => n < m) ↔
      (∀ p ∈ pushes, p.call.stepIndex.toNat < 2 ^ 31) ∨
        ∀ p ∈ pushes, 2 ^ 31 ≤ p.call.stepIndex.toNat := by
  obtain ⟨rfl, -⟩ := loadUndoStack_ok.mp hload
  have hstack : (pendingStack orgId sessionId db').Perm
      (pushes.map (Push.row .postgres db.now)) := by
    refine (List.perm_insertionSort _ _).trans (.of_eq ?_)
    rw [pushAll_ok hpush, List.filter_append, List.filter_eq_nil_iff.mpr, List.nil_append,
      List.filter_eq_self.mpr]
    · intro u hu
      obtain ⟨p, hp, rfl⟩ := List.mem_map.mp hu
      simp [Push.row, newUndoRow, hsession p hp]
    · intro u hu
      simp [hempty u hu]
  have hentries := hstack.map fun u => ((mapUndoRow u).effectId, (mapUndoRow u).stackPosition)
  simp only [List.map_map, Function.comp_def, mapUndoRow, Push.row, newUndoRow,
    ofInt_stepColumn] at hentries
  have hsteps := hentries.map Prod.snd
  simp only [List.map_map, Function.comp_def] at hsteps
  have hcolumns : ∀ u ∈ pendingStack orgId sessionId db',
      stepColumn .postgres (UInt32.ofInt u.stackPosition) = u.stackPosition := by
    intro u hu
    obtain ⟨p, -, rfl⟩ := List.mem_map.mp (hstack.mem_iff.mp hu)
    exact congrArg (stepColumn .postgres) (ofInt_stepColumn .postgres p.call.stepIndex)
  have hsorted : (pendingStack orgId sessionId db').Pairwise fun u v =>
      v.stackPosition ≤ u.stackPosition := List.pairwise_insertionSort _ _
  simp only [List.map_map, Function.comp_def, mapUndoRow, hentries, true_and]
  rw [pairwise_lt_iff (hsteps.nodup_iff.mpr hdistinct)]
  · simp only [hsteps.mem_iff, List.forall_mem_map]
  · rw [List.pairwise_map]
    refine hsorted.imp_of_mem fun hu hv hle => ?_
    rwa [hcolumns _ hu, hcolumns _ hv]

/-- A compensable call at a step of the sample session. -/
def samplePush (step : UInt32) (undoId : UndoId) : Push where
  call := sampleCall step
  effectId := ⟨10⟩
  compensation := sampleCompensation
  undoId := undoId

/-- Two entries, loaded last first. -/
theorem loaded_in_step_order_sample : ∃ db' entries,
    pushAll [samplePush 0 ⟨11⟩, samplePush 1 ⟨12⟩] sampleSession = .ok ((), db') ∧
      loadUndoStack sampleOrg ⟨2⟩ db' = .ok (entries, db') ∧
      (entries.map (·.stackPosition)).Pairwise fun m n => n < m := by
  obtain ⟨db', hpush⟩ : ∃ db', pushAll [samplePush 0 ⟨11⟩, samplePush 1 ⟨12⟩] sampleSession =
      .ok ((), db') := ⟨_, rfl⟩
  have hload : loadUndoStack sampleOrg ⟨2⟩ db' = .ok (_, db') := loadUndoStack_ok.mpr ⟨rfl, rfl⟩
  refine ⟨db', _, hpush, hload, ((loaded_in_step_order_iff ?_ ?_ ?_ hpush hload).mpr ?_).2⟩
  all_goals decide

/-- The step after the largest signed number is undone last. -/
theorem loaded_out_of_step_order : ∃ db' entries,
    pushAll [samplePush 2147483647 ⟨11⟩, samplePush 2147483648 ⟨12⟩] sampleSession =
        .ok ((), db') ∧ loadUndoStack sampleOrg ⟨2⟩ db' = .ok (entries, db') ∧
      ¬ (entries.map (·.stackPosition)).Pairwise fun m n => n < m :=
  ⟨_, _, rfl, rfl, by decide⟩

end UndoLog
