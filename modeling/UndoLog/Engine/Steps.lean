import UndoLog.Concurrent.Alone
import UndoLog.Engine.Contract
import UndoLog.Engine.Frames

/-!
# Steps of the system

Either a step leaves all tables alone, or it is a database statement of a running
call that succeeds. Invariants of the store are shown for the second kind only.
-/

namespace UndoLog

open Concurrent Machine Relational

variable {S : Setup} {guard : Guard (system S)} {c c' : State S} {choice : Choice (system S)}

/-- An event of the system. -/
abbrev SystemEvent (S : Setup) : Type := Machine.Event (system S)

/-- A call has started. -/
def Started (c : State S) (t : ℕ) (op : Op) : Prop :=
  Event.started (M := system S) t op ∈ c.trace

/-- A call has returned. -/
def Returned (c : State S) (t : ℕ) (r : Except UndoLogError OpResult) : Prop :=
  Event.returned (M := system S) t r ∈ c.trace

/-- A call has run a database statement successfully. -/
def Succeeded (c : State S) (t : ℕ) (q : Query) (a : q.Ret) : Prop :=
  Event.ran (M := system S) t (.db q) (.ok a) ∈ c.trace

/-- The database of a configuration. -/
abbrev dbOf (c : State S) : Db := World.db c.store

/-- The statements a call has run. -/
def pastOf (t : ℕ) (c : State S) : History := ranBy (M := system S) t c.trace

variable {t : ℕ} {q : Query} {o : Oracle} {w w' : World} {a : q.Ret} {b : Backend}

theorem mem_pastOf {st : Stmt} {reply : Except UndoLogError st.Ret} :
    ⟨st, reply⟩ ∈ pastOf t c ↔ Event.ran (M := system S) t st reply ∈ c.trace :=
  mem_ranBy

theorem succeeded_iff_done : Succeeded c t q a ↔ Done (pastOf t c) q a := mem_pastOf.symm

theorem pastOf_ran {st : Stmt} {reply : Except UndoLogError st.Ret}
    (h : c'.trace = c.trace ++ [.ran t st reply]) : pastOf t c' = pastOf t c ++ [⟨st, reply⟩] :=
  (congrArg (ranBy t) h).trans (ranBy_ran_self (M := system S) t c.trace st reply)

variable {event : SystemEvent S} {reply : Except UndoLogError q.Ret} {P : State S → Prop}

theorem pastOf_other (h : c'.trace = c.trace ++ [event])
    (hevent : ∀ st reply, event ≠ .ran t st reply) : pastOf t c' = pastOf t c :=
  (congrArg (ranBy t) h).trans (ranBy_append_of_ne c.trace hevent)

/-- The tables are the same; at most open timeout transactions have been rolled
back. -/
structure SameTables (db db' : Db) : Prop where
  orgs : db'.orgs = db.orgs
  sessions : db'.sessions = db.sessions
  effects : db'.effects = db.effects
  undo : db'.undo = db.undo
  approvals : db'.approvals = db.approvals
  events : db'.events = db.events
  timeouts : db'.timeouts.Sublist db.timeouts

theorem SameTables.refl (db : Db) : SameTables db db :=
  ⟨rfl, rfl, rfl, rfl, rfl, rfl, List.Sublist.refl _⟩

theorem SameTables.rollback (t : ℕ) (db : Db) : SameTables db (rollbackTimeouts t db) :=
  ⟨rfl, rfl, rfl, rfl, rfl, rfl, List.filter_sublist⟩

/-- Whether an event is a successful database statement. -/
def isSuccess : SystemEvent S → Bool
  | .ran _ (.db _) (.ok _) => true
  | _ => false

/-- A step that is not a successful database statement. -/
structure QuietStep (c c' : State S) (event : SystemEvent S) : Prop where
  tables : SameTables (dbOf c) (dbOf c')
  trace : c'.trace = c.trace ++ [event]
  quiet : isSuccess event = false

/-- A successful database statement of call `t`. -/
structure QueryStep (c c' : State S) (t : ℕ) (o : Oracle) (q : Query) (a : q.Ret) : Prop where
  call : ∃ next, c.calls t = some (.call (.db q) next)
  unblocked : q.blocked t (dbOf c) = false
  tx : q.tx S.backend t o (dbOf c) = .ok (a, dbOf c')
  trace : c'.trace = c.trace ++ [.ran t (.db q) (.ok a)]

/-- The call of a statement is running. -/
theorem QueryStep.running (h : QueryStep c c' t o q a) : (c.calls t).isSome = true := by
  obtain ⟨next, hcall⟩ := h.call
  rw [hcall]
  rfl

/-- A statement condition holds of a statement that runs. -/
theorem QueryStep.guarded {cond : State S → ℕ → (system S).Stmt → Prop}
    (h : QueryStep c c' t o q a) (hguard : onStatements cond c (.run t o)) : cond c t (.db q) := by
  obtain ⟨next, hcall⟩ := h.call
  exact onStatements_run hguard hcall

theorem AppStep.run_db {step : AppStep} {reply : Except UndoLogError step.Ret}
    (h : step.run o w = some (reply, w')) : w'.db = w.db := by
  cases step with
  | rateLimit | cacheGet | newUuid =>
    simp only [AppStep.run] at h
    split at h <;> cases h <;> rfl
  | _ => cases h; rfl

theorem Env.run_tables {e : Env} (h : e.run b w = some w') : SameTables w.db w'.db := by
  cases e with
  | clock now =>
    simp only [Env.run] at h
    split at h <;> cases h
    exact ⟨rfl, rfl, rfl, rfl, rfl, rfl, List.Sublist.refl _⟩
  | refresh registry =>
    simp only [Env.run] at h
    split at h <;> cases h
    exact .refl _
  | restart =>
    cases h
    exact .refl _

/-- A statement either fails and rolls back, or its transaction commits. -/
theorem Query.run_cases (h : q.run b t o w = some (reply, w')) :
    (∃ e, reply = .error e ∧ w' = w.rollback t) ∨
    ∃ a db, reply = .ok a ∧ q.blocked t w.db = false ∧ q.tx b t o w.db = .ok (a, db) ∧
      w' = { w with db := db } := by
  simp only [Query.run] at h
  split at h
  · cases h
    exact .inl ⟨_, rfl, rfl⟩
  · split at h
    · cases h
    · next hblocked =>
      split at h
      · next a db htx =>
        cases h
        exact .inr ⟨a, db, rfl, by simpa using hblocked, htx, rfl⟩
      · cases h
        exact .inl ⟨_, rfl, rfl⟩

/-- Unless the connection fails, the reply of a statement is the result of its
transaction. -/
theorem Query.run_reply (hfault : o.fault = false) (h : q.run b t o w = some (reply, w')) :
    reply = (q.tx b t o w.db).map Prod.fst := by
  simp only [Query.run, hfault, Bool.false_eq_true, if_false] at h
  split at h
  · cases h
  · split at h
    · next a db htx =>
      cases h
      rw [htx]
      rfl
    · next e htx =>
      cases h
      rw [htx]
      rfl

/-- A statement that is not blocked and whose transaction commits succeeds while the
connection holds. -/
theorem Query.run_ok {db : Db} (hfault : o.fault = false) (hblocked : q.blocked t w.db = false)
    (htx : q.tx b t o w.db = .ok (a, db)) : q.run b t o w = some (.ok a, { w with db := db }) := by
  simp only [Query.run, hfault, hblocked, htx, Bool.false_eq_true, if_false]

theorem Query.run_error
    {e : UndoLogError} (hfault : o.fault = false) (hblocked : q.blocked t w.db = false)
    (htx : q.tx b t o w.db = .error e) : q.run b t o w = some (.error e, w.rollback t) := by
  simp only [Query.run, hfault, hblocked, htx, Bool.false_eq_true, if_false]

/-- Every step is quiet or a successful database statement. -/
theorem step_cases (h : Transition c choice c') : (∃ event, QuietStep c c' event) ∨
    ∃ t o q a, choice = .run t o ∧ QueryStep c c' t o q a := by
  cases h with
  | start | finish => exact .inl ⟨_, .refl _, rfl, rfl⟩
  | crash hcall => exact .inl ⟨_, .rollback _ _, rfl, rfl⟩
  | environment henv => exact .inl ⟨_, Env.run_tables henv, rfl, rfl⟩
  | @run t o st next reply store hcall hexec =>
    cases st with
    | app step =>
      refine .inl ⟨_, ?_, rfl, rfl⟩
      change SameTables (dbOf c) (World.db store)
      rw [AppStep.run_db hexec]
      exact .refl _
    | db q =>
      rcases Query.run_cases hexec with ⟨e, rfl, rfl⟩ | ⟨a, db, rfl, hblocked, htx, rfl⟩
      · exact .inl ⟨_, .rollback _ _, rfl, rfl⟩
      · exact .inr ⟨t, o, q, a, rfl, ⟨next, hcall⟩, hblocked, htx, rfl⟩

/-- What holds of the empty tables and is kept by every step that leaves the tables alone and by
every successful statement holds in every run. -/
theorem tables_invariant {P : Db → Prop} (hc : Reaches S guard c)
    (hempty : ∀ now partitions orgs, P (.empty now partitions orgs))
    (hquiet : ∀ {db db'}, SameTables db db' → P db → P db')
    (hquery : ∀ {c c' t o q a}, Reaches S guard c → guard c (.run t o) →
      QueryStep c c' t o q a → P (dbOf c) → P (dbOf c')) : P (dbOf c) := by
  refine hc.invariant ?_ ?_
  · rintro w ⟨now, partitions, orgs, hdb, -⟩
    change P w.db
    rw [hdb]
    exact hempty now partitions orgs
  · intro c choice c' hc ih hguard htrans
    rcases step_cases htrans with ⟨event, hstep⟩ | ⟨t, o, q, a, rfl, hstep⟩
    · exact hquiet hstep.tables ih
    · exact hquery hc hguard hstep ih

/-- The tables of a run that has just begun. -/
structure Db.Blank (db : Db) : Prop where
  effects : ∀ row, row ∉ db.effects
  undo : ∀ u, u ∉ db.undo
  approvals : ∀ a, a ∉ db.approvals
  sessions : ∀ s, s ∉ db.sessions
  timeouts : ∀ tx, tx ∉ db.timeouts

/-- What holds of empty tables and is kept by every step holds in every run. -/
@[elab_as_elim]
theorem rows_invariant (hc : Reaches S guard c) (hblank : ∀ c : State S, (dbOf c).Blank → P c)
    (hstep : ∀ c choice c', Reaches S guard c → P c → guard c choice → Transition c choice c' →
      P c') : P c := by
  refine hc.invariant ?_ hstep
  rintro w ⟨now, partitions, orgs, hdb, -⟩
  refine hblank _ ?_
  change w.db.Blank
  rw [hdb]
  exact ⟨by rintro _ ⟨⟩, by rintro _ ⟨⟩, by rintro _ ⟨⟩, by rintro _ ⟨⟩, by rintro _ ⟨⟩⟩

/-- A key of a table to which statements add rows under new keys, and whose other rows
keep theirs. -/
theorem keyed_invariant {Row Key : Type} (table : Db → List Row) {key : Row → Key}
    (hc : Reaches S guard c)
    (hempty : ∀ now partitions orgs, table (.empty now partitions orgs) = [])
    (hquiet : ∀ {db db'}, SameTables db db' → table db' = table db)
    (hquery : ∀ {c c' t o q a}, Reaches S guard c → guard c (.run t o) → QueryStep c c' t o q a →
      (∃ row, (∀ old ∈ table (dbOf c), key old ≠ key row) ∧
        table (dbOf c') = table (dbOf c) ++ [row]) ∨
      ∃ f, (∀ row, key (f row) = key row) ∧ table (dbOf c') = (table (dbOf c)).map f) :
    Keyed key (table (dbOf c)) := by
  refine tables_invariant (P := fun db => Keyed key (table db)) hc ?_ ?_ ?_
  · intro now partitions orgs
    rw [hempty]
    exact List.nodup_nil
  · intro db db' hsame ih
    rwa [hquiet hsame]
  · intro c c' t o q a hc hguard hstep ih
    rcases hquery hc hguard hstep with ⟨row, hnew, htable⟩ | ⟨f, hkey, htable⟩
    · rw [htable]
      exact ih.append hnew
    · have hsame : key ∘ f = key := funext hkey
      rwa [htable, Keyed, List.map_map, hsame]

/-- Organisations are neither added nor removed. -/
theorem orgs_step (h : Transition c choice c') : (dbOf c').orgs = (dbOf c).orgs := by
  rcases step_cases h with ⟨event, hquiet⟩ | ⟨t, o, q, a, -, hquery⟩
  · exact hquiet.tables.orgs
  · exact (Outcome.of_tx hquery.tx).orgs

/-- The event of a successful statement tells the step that it was. -/
theorem QueryStep.of_trace (h : Transition c choice c')
    (htrace : c'.trace = c.trace ++ [.ran t (.db q) (.ok a)]) :
    ∃ o, choice = .run t o ∧ QueryStep c c' t o q a := by
  rcases step_cases h with ⟨event, hquiet⟩ | ⟨t', o, q', a', hchoice, hquery⟩
  · have hevent := List.append_inj_right (hquiet.trace.symm.trans htrace) rfl
    obtain rfl := List.singleton_inj.mp hevent
    cases hquiet.quiet
  · have hevent := List.append_inj_right (hquery.trace.symm.trans htrace) rfl
    cases hevent
    exact ⟨o, hchoice, hquery⟩

/-- What has succeeded after a step has before it, or is the step. -/
theorem Succeeded.step_cases (hran : Succeeded c' t q a) (h : Transition c choice c') :
    Succeeded c t q a ∨ ∃ o, QueryStep c c' t o q a := by
  obtain ⟨event, htrace⟩ := h.trace
  rw [Succeeded, htrace] at hran
  rcases List.mem_snoc.mp hran with hold | rfl
  · exact .inl hold
  · obtain ⟨o, -, hquery⟩ := QueryStep.of_trace h htrace
    exact .inr ⟨o, hquery⟩

/-! ## Statements that run alone -/

/-- A statement returns a value when its transaction commits. -/
theorem ends_query :
    Ends (M := system S) t (query q) w (.ok a) w' ↔ ∃ o db, q.blocked t w.db = false ∧
      q.tx S.backend t o w.db = .ok (a, db) ∧ w' = { w with db := db } := by
  refine ends_stmt.trans ⟨?_, ?_⟩
  · rintro ⟨o, hexec⟩
    rcases Query.run_cases hexec with ⟨e, herror, -⟩ | ⟨a', db, hok, hblocked, htx, hw⟩
    · cases herror
    · cases hok
      exact ⟨o, db, hblocked, htx, hw⟩
  · rintro ⟨o, db, hblocked, htx, rfl⟩
    have hcalm : q.tx S.backend t { o with fault := false } w.db = q.tx S.backend t o w.db := by
      cases q <;> rfl
    exact ⟨_, Query.run_ok rfl hblocked (hcalm.trans htx)⟩

/-! ## Statements that conditions on runs speak about -/

/-- The organisation and the signature that a statement looks up. -/
def Stmt.lookup : Stmt → Option (OrgId × CallSignature)
  | .db (.findBySignature orgId signature) => some (orgId, signature)
  | _ => none

/-- The organisation and the signature that a statement inserts an effect for. -/
def Stmt.inserts : Stmt → Option (OrgId × CallSignature)
  | .db (.insertCompensable call signature _ _)
  | .db (.insertIrreversible call signature _) => some (call.orgId, signature)
  | _ => none

/-- The effect that a statement marks as replayed. -/
def Stmt.replays : Stmt → Option (OrgId × EffectId)
  | .db (.markReplayed orgId effectId) => some (orgId, effectId)
  | _ => none

/-- The effect that a statement marks as a failed compensation. -/
def Stmt.failsCompensation : Stmt → Option (OrgId × EffectId)
  | .db (.markEffectCompensationFailed orgId effectId) => some (orgId, effectId)
  | _ => none

/-- The approval that a statement of the timeout job updates. -/
def Stmt.timesOut : Stmt → Option (OrgId × ApprovalRequestId)
  | .db (.timeoutUpdate orgId id _) => some (orgId, id)
  | _ => none

/-- Nothing unusual happens outside: the connection holds, the lock is free and the
limiter lets the call pass. -/
def Oracle.calm (o : Oracle) : Bool := !o.fault && !o.lockBusy && o.refusal.isNone

theorem Oracle.calm_iff :
    o.calm = true ↔ o.fault = false ∧ o.lockBusy = false ∧ o.refusal = none := by
  simp [Oracle.calm, and_assoc]

/-! ## What holds since a statement -/

/-- The rule for successful statements: what holds when a statement succeeds and is
kept by every step holds ever after. -/
@[elab_as_elim]
theorem Succeeded.since (h : Succeeded c t q a) (hc : Reaches S guard c)
    (hnew : ∀ c c' o, Reaches S guard c → guard c (.run t o) → Transition c (.run t o) c' →
      QueryStep c c' t o q a → P c')
    (hkeep : ∀ c choice c', Reaches S guard c → guard c choice → Transition c choice c' →
      P c → P c') : P c := by
  refine hc.since h ?_ hkeep
  intro c choice c' hc hguard htrans htrace
  obtain ⟨o, rfl, hquery⟩ := QueryStep.of_trace htrans htrace
  exact hnew c c' o hc hguard htrans hquery

theorem QueryStep.ran (h : QueryStep c c' t o q a) : Succeeded c' t q a := by
  rw [Succeeded, h.trace]
  exact List.mem_concat_self

/-- The rule for what holds as long as the call of the statement runs. -/
@[elab_as_elim]
theorem Succeeded.while_running (h : Succeeded c t q a) (hc : Reaches S guard c)
    (hrunning : (c.calls t).isSome = true)
    (hnew : ∀ c c' o, Reaches S guard c → QueryStep c c' t o q a → P c')
    (hkeep : ∀ c choice c', Reaches S guard c → guard c choice → Transition c choice c' →
      Succeeded c t q a → (c.calls t).isSome = true → P c → P c') : P c := by
  have hsince : Succeeded c t q a ∧ ((c.calls t).isSome = true → P c) := by
    refine h.since hc ?_ ?_
    · intro c c' o hc _ _ hquery
      exact ⟨hquery.ran, fun _ => hnew c c' o hc hquery⟩
    · rintro c choice c' hc hguard htrans ⟨hran, ih⟩
      refine ⟨htrans.subset hran, fun hrunning => ?_⟩
      obtain ⟨op, hstart⟩ := hc.coherent.ran_started t _ _ hran
      have hbefore := hc.running_before htrans hstart hrunning
      exact hkeep c choice c' hc hguard htrans hran hbefore (ih hbefore)
  exact hsince.2 hrunning

end UndoLog
