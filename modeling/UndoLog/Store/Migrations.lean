import Mathlib.Data.List.Sort
import UndoLog.Text.Decimal

/-!
# The migration tool

`undolog-migrate` applies a migration in one step and records it in another, in a table that it
does not create. Versions count as applied if that table or the one of the first migration has
them.
-/

namespace UndoLog.Migrate

/-! ## The database -/

/-- What the first migration creates, with what the later ones add to it. -/
structure Schema where
  retryColumns : Bool
  /-- The seeded organisations. -/
  orgs : List ℕ
  /-- The versions in `undolog_schema_migrations`. -/
  legacy : List (List Char)
deriving DecidableEq

structure Database where
  schema : Option Schema
  /-- `_sqlx_migrations`, if there is such a table. -/
  sqlxMigrations : Option (List (ℤ × String))
deriving DecidableEq

/-- One step: what is sent to the server at once, or a transaction. An error changes nothing. -/
abbrev Sql : Type := Database → Option Database

/-- A change of the tables of the first migration. -/
def onSchema (f : Schema → Option Schema) : Sql := fun db =>
  db.schema.bind fun s => (f s).map fun s => { db with schema := some s }

/-- The rows of an organisation. Those that are there stay. -/
def seed (org : ℕ) : Sql := onSchema fun s =>
  some { s with orgs := if org ∈ s.orgs then s.orgs else s.orgs ++ [org] }

def unseed (org : ℕ) : Sql := onSchema fun s => some { s with orgs := s.orgs.filter (· ≠ org) }

/-- `get_up_sql` -/
def getUpSql : ℤ → Option Sql
  | 1 => some fun db =>
    if db.schema.isSome then none
    else some { db with
      schema := some { retryColumns := false, orgs := [], legacy := ["0001".toList] } }
  | 2 => some (onSchema fun s =>
    if s.retryColumns then none else some { s with retryColumns := true })
  | 3 => some (seed 1)
  | 4 => some (seed 2)
  | _ => none

/-- `get_rollback_sql` -/
def getRollbackSql : ℤ → Option Sql
  | 1 => some fun db => some { db with schema := none }
  | 2 => some (onSchema fun s => some { s with retryColumns := false })
  | 3 => some (unseed 1)
  | 4 => some (unseed 2)
  | _ => none

/-- `get_all_migrations` -/
def getAllMigrations : List (ℤ × String) :=
  [(1, "Initial schema - orgs, projects, tool registry, effect log, undo stack, approvals"),
    (2, "Add retry configuration columns to undolog_undo_stack"),
    (3, "Seed demo organisation and tool registrations"),
    (4, "Seed a second demo organisation for multi-tenant demos")]

/-- `parse::<i64>` of a text without a sign. -/
def parseVersion (v : List Char) : Option ℤ :=
  if v ≠ [] ∧ v.all Char.isDigit then some (Text.magnitude v) else none

variable (db : Database)

/-- `get_applied_versions`. A table that is missing counts as empty. -/
def getAppliedVersions : List ℤ :=
  let versions := (db.sqlxMigrations.getD []).map Prod.fst
  let legacy := (db.schema.elim [] Schema.legacy).filterMap parseVersion
  (legacy.foldl (fun versions v => if v ∈ versions then versions else versions ++ [v])
    versions).insertionSort (· ≤ ·)

/-- `get_pending_migrations` -/
def getPendingMigrations : List (ℤ × String) :=
  getAllMigrations.filter fun m => m.1 ∉ getAppliedVersions db

/-- `get_last_applied_migration`, an error if the table is missing. -/
def getLastAppliedMigration : Option (Option (ℤ × String)) :=
  db.sqlxMigrations.map fun rows => (rows.insertionSort fun m n => n.1 ≤ m.1).head?

/-! ## Runs -/

/-- A run of the tool: the databases after each of its steps, and whether it succeeds. -/
structure Trail where
  states : List Database
  ok : Bool

/-- One step and what follows it. -/
def step (sql : Sql) (next : Database → Trail) (db : Database) : Trail :=
  match sql db with
  | none => ⟨[], false⟩
  | some db' => ⟨db' :: (next db').states, (next db').ok⟩

/-- The insert that records a migration. -/
def record (version : ℤ) (description : String) : Sql := fun db =>
  db.sqlxMigrations.bind fun rows =>
    if version ∈ rows.map Prod.fst then none
    else some { db with sqlxMigrations := some (rows ++ [(version, description)]) }

/-- The loop of `run_up` with `apply_migration`. -/
def applyMigrations : List (ℤ × String) → Database → Trail
  | [], _ => ⟨[], true⟩
  | (version, description) :: rest, db =>
    match getUpSql version with
    | none => ⟨[], false⟩
    | some sql => step sql (step (record version description) (applyMigrations rest)) db

inductive Command where
  | up
  | down
deriving DecidableEq

/-- `run_up` and `run_down` -/
def Command.run (dryRun : Bool) (db : Database) : Command → Trail
  | .up => if dryRun then ⟨[], true⟩ else applyMigrations (getPendingMigrations db) db
  | .down =>
    match getLastAppliedMigration db with
    | none => ⟨[], false⟩
    | some none => ⟨[], true⟩
    | some (some (version, _)) =>
      if dryRun then ⟨[], true⟩
      else
        match getRollbackSql version with
        | none => ⟨[], false⟩
        | some sql => step (fun db => (sql db).map fun db => { db with
            sqlxMigrations := db.sqlxMigrations.map (·.filter (·.1 ≠ version)) })
            (fun _ => ⟨[], true⟩) db

/-- A run that is cut after some number of steps, unless it ends before. -/
structure Run where
  command : Command
  dryRun : Bool
  steps : ℕ

/-- The database that a run leaves behind. -/
def left (r : Run) : Database :=
  ((r.command.run r.dryRun db).states.take r.steps).getLastD db

/-- A database with nothing in it, except perhaps for an empty `_sqlx_migrations`. -/
def start (tracked : Bool) : Database := ⟨none, if tracked then some [] else none⟩

/-! ## Bookkeeping -/

/-- What the SQL of a version does is there and was not rolled back. -/
def inForce : ℤ → Bool
  | 1 => db.schema.isSome
  | 2 => db.schema.any Schema.retryColumns
  | 3 => db.schema.any fun s => 1 ∈ s.orgs
  | 4 => db.schema.any fun s => 2 ∈ s.orgs
  | _ => false

/-- The versions that are reported as applied are those in force, and an uninterrupted `up`
applies all others. -/
def Sound : Prop :=
  (∀ v, v ∈ getAppliedVersions db ↔ inForce db v = true) ∧
    (Command.up.run false db).ok = true ∧
    getPendingMigrations ((Command.up.run false db).states.getLastD db) = []

/-- The run stops between the SQL of a migration and its record. The first migration records
itself. -/
def Tears (r : Run) : Prop :=
  r.command = .up ∧ r.dryRun = false ∧ r.steps % 2 = 1 ∧
    ∃ m ∈ (getPendingMigrations db)[r.steps / 2]?, m.1 ≠ 1

/-- No run of a history stops there. -/
def Untorn : Database → List Run → Prop
  | _, [] => True
  | db, r :: rest => ¬ Tears db r ∧ Untorn (left db r) rest

theorem inForce_mem {db : Database} {v : ℤ} (h : inForce db v = true) :
    v ∈ getAllMigrations.map Prod.fst := by
  unfold inForce at h
  split at h <;> first | decide | cases h

instance : Decidable (Sound db) :=
  @decidable_of_iff _ (((∀ v ∈ getAppliedVersions db, inForce db v = true) ∧
      ∀ v ∈ getAllMigrations.map Prod.fst, inForce db v = true → v ∈ getAppliedVersions db) ∧
    (Command.up.run false db).ok = true ∧
    getPendingMigrations ((Command.up.run false db).states.getLastD db) = [])
    (and_congr_left' ⟨fun h v => ⟨h.1 v, fun hv => h.2 v (inForce_mem hv) hv⟩,
      fun h => ⟨fun v => (h v).mp, fun v _ => (h v).mpr⟩⟩) inferInstance

instance (r : Run) : Decidable (Tears db r) := by
  unfold Tears
  infer_instance

/-- The database after some of the migrations, the first of them recorded or not. -/
def migrated (applied unrecorded : ℕ) : Database where
  schema := if applied = 0 then none else some
    { retryColumns := 2 ≤ applied
      orgs := [1, 2].take (applied - 2)
      legacy := ["0001".toList] }
  sqlxMigrations := some ((getAllMigrations.take applied).drop unrecorded)

/-- All of these databases. -/
def migratedStates : List Database :=
  (List.range 5).flatMap fun applied => [migrated applied 0, migrated applied 1]

/-- Runs of at most eight steps. -/
theorem short_run_cases : ∀ db ∈ migratedStates, Sound db ∧
    ∀ command ∈ [Command.up, .down], ∀ dryRun : Bool,
      (command.run dryRun db).states.length ≤ 8 ∧ ∀ steps ≤ 8,
        if Tears db ⟨command, dryRun, steps⟩ then ¬ Sound (left db ⟨command, dryRun, steps⟩)
        else left db ⟨command, dryRun, steps⟩ ∈ migratedStates := by
  decide +kernel

variable {db : Database}

/-- A run leaves such a database behind, or one that is not sound if it is torn. -/
theorem run_cases (h : db ∈ migratedStates) (r : Run) :
    if Tears db r then ¬ Sound (left db r) else left db r ∈ migratedStates := by
  obtain ⟨command, dryRun, steps⟩ := r
  obtain ⟨hlength, hshort⟩ := (short_run_cases db h).2 command (by cases command <;> simp) dryRun
  by_cases hsteps : steps ≤ 8
  · exact hshort steps hsteps
  · -- the run has ended before
    have hsame : left db ⟨command, dryRun, steps⟩ = left db ⟨command, dryRun, 8⟩ := by
      rw [left, left, List.take_of_length_le hlength,
        List.take_of_length_le (hlength.trans (Nat.le_of_not_le hsteps))]
    have hpast : ¬ Tears db ⟨command, dryRun, steps⟩ := by
      rintro ⟨-, -, -, m, hm, -⟩
      have hlt : steps / 2 < _ := (List.getElem?_eq_some_iff.mp hm).1
      have hle : (getPendingMigrations db).length ≤ 4 := List.length_filter_le _ _
      omega
    have hend := hshort 8 le_rfl
    rw [if_neg fun h => absurd (show 8 % 2 = 1 from h.2.2.1) (by decide)] at hend
    rw [if_neg hpast, hsame]
    exact hend

theorem sound_iff_untorn (h : db ∈ migratedStates) (runs : List Run) :
    (∀ earlier, earlier <+: runs → Sound (earlier.foldl left db)) ↔ Untorn db runs := by
  induction runs generalizing db with
  | nil =>
    refine ⟨fun _ => trivial, fun _ earlier hearlier => ?_⟩
    rw [List.prefix_nil.mp hearlier]
    exact (short_run_cases db h).1
  | cons r rest ih =>
    have hcases := run_cases h r
    constructor
    · intro hsound
      have hnot : ¬ Tears db r := fun htears => by
        rw [if_pos htears] at hcases
        exact hcases (hsound [r] (List.prefix_append [r] rest))
      rw [if_neg hnot] at hcases
      exact ⟨hnot, (ih hcases).mp fun earlier hearlier =>
        hsound (r :: earlier) ((List.prefix_cons_inj r).mpr hearlier)⟩
    · rintro ⟨hnot, hrest⟩ earlier hearlier
      rw [if_neg hnot] at hcases
      cases earlier with
      | nil => exact (short_run_cases db h).1
      | cons r' earlier =>
        obtain ⟨rfl, hprefix⟩ := List.cons_prefix_cons.mp hearlier
        exact (ih hcases).mpr hrest earlier hprefix

/-- The bookkeeping is right after every run of a history exactly if `_sqlx_migrations` was there
from the start and no run has stopped between the SQL of a later migration and its record. -/
theorem bookkeeping_sound_iff (tracked : Bool) (runs : List Run) :
    (∀ earlier, earlier <+: runs → Sound (earlier.foldl left (start tracked))) ↔
      tracked = true ∧ Untorn (start tracked) runs := by
  cases tracked with
  | false =>
    refine ⟨fun h => absurd (h [] List.nil_prefix) (by decide +kernel), fun h => by cases h.1⟩
  | true =>
    rw [sound_iff_untorn (by decide +kernel) runs]
    simp

/-- On an empty database `up` fails. After two attempts the second migration is in force but is
not reported as applied. -/
theorem empty_database_fails : (Command.up.run false (start false)).ok = false ∧
    inForce ([⟨.up, false, 2⟩, ⟨.up, false, 2⟩].foldl left (start false)) 2 = true ∧
    2 ∉ getAppliedVersions ([⟨.up, false, 2⟩, ⟨.up, false, 2⟩].foldl left (start false)) := by
  decide +kernel

end UndoLog.Migrate
