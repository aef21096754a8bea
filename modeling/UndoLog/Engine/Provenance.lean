import UndoLog.Engine.Steps

/-!
# Where the rows of the store come from

In every interleaving the effect log, the undo stack and the approvals are the images of the
insertions, pushes and creations of the trace, row by row and in order. A call inserts at
most one effect and creates at most one approval, under identifiers of their own.
-/

namespace UndoLog

open Concurrent Machine Relational

variable {S : Setup} {guard : Guard (system S)} {c c' : State S}

/-! ## Who issues a statement -/

/-- Statements that only `intercept` issues. -/
def Query.ofIntercept : Query → Bool
  | .createSession _ _ | .tryAdvisoryLock _ | .findBySignature _ _ | .markReplayed _ _
  | .insertCompensable _ _ _ _ | .insertIrreversible _ _ _ | .insertUndo _ _ _ _
  | .setExecuting _ _ | .createApproval _ | .setApprovalRequestId _ _ _
  | .setAwaitingApproval _ _ => true
  | _ => false

variable {q : Query} {o : Oracle} {past : History}

/-- The call that issues a statement of `intercept` intercepts. -/
theorem intercept_of_pre {op : Op} (hpre : opPre S op past (.db q)) (hq : q.ofIntercept = true) :
    ∃ call, op = .intercept call ∧ interceptPre S call past (.db q) := by
  cases op with
  | intercept call => exact ⟨call, rfl, hpre⟩
  | processTimeouts | processPendingTimeouts => cases q <;> cases hq <;> cases hpre.1
  | _ => cases q <;> cases hq <;> cases hpre

variable {a : q.Ret} {t : ℕ}

section

variable (hc : Reaches S guard c)
include hc

/-- A running statement meets the contract of its call. -/
theorem QueryStep.pre (h : QueryStep c c' t o q a) :
    ∃ op, Started c t op ∧ opPre S op (pastOf t c) (.db q) := by
  obtain ⟨next, hcall⟩ := h.call
  exact (contract S).pre_of_call hc.coherent hcall

/-- A statement of `intercept` that has succeeded met its contract when it ran. -/
theorem Succeeded.intercept_pre (h : Succeeded c t q a) (hq : q.ofIntercept = true) :
    ∃ call before, Started c t (.intercept call) ∧ before <+: pastOf t c ∧
      interceptPre S call before (.db q) := by
  obtain ⟨op, hstart⟩ := hc.coherent.ran_started t _ _ h
  obtain ⟨before, hbefore, -, hpre⟩ := (contract S).pre_of_ran hc.coherent hstart h
  obtain ⟨call, rfl, hintercept⟩ := intercept_of_pre hpre hq
  exact ⟨call, before, hstart, hbefore, hintercept⟩

/-- A call number belongs to one operation. -/
theorem Started.unique {op op' : Op} (h : Started c t op) (h' : Started c t op') : op = op' :=
  hc.coherent.started_unique t op op' h h'

/-- A call runs at most one insert into the effect log. -/
theorem insert_once {x y : Ran Stmt Stmt.Ret UndoLogError} (hx : x ∈ pastOf t c)
    (hy : y ∈ pastOf t c) (hkx : x.1.isInsert = true) (hky : y.1.isInsert = true) : x = y := by
  refine (contract S).once hc.coherent Stmt.isInsert ?_ hx hy hkx hky
  rintro op past (step | q) hpre hkind
  · cases hkind
  · cases q with
    | insertCompensable | insertIrreversible =>
      obtain ⟨call, -, hpre⟩ := intercept_of_pre hpre rfl
      exact hpre.2.2.2
    | _ => cases hkind

theorem creation_once {x y : Ran Stmt Stmt.Ret UndoLogError} (hx : x ∈ pastOf t c)
    (hy : y ∈ pastOf t c) (hkx : x.1.isApprovalCreation = true)
    (hky : y.1.isApprovalCreation = true) : x = y := by
  refine (contract S).once hc.coherent Stmt.isApprovalCreation ?_ hx hy hkx hky
  rintro op past (step | q) hpre hkind
  · cases hkind
  · cases q with
    | createApproval =>
      obtain ⟨call, -, hpre⟩ := intercept_of_pre hpre rfl
      obtain ⟨effectId, reason, id, now, -, -, hfree, -⟩ := hpre
      exact hfree
    | _ => cases hkind

end

/-! ## Logs of the trace -/

/-- The identifier a step has generated. -/
def drawOf : Ran Stmt Stmt.Ret UndoLogError → Option Uuid
  | ⟨.app .newUuid, .ok u⟩ => some u
  | _ => none

/-- All generated identifiers, with the calls that generated them. -/
def draws (c : State S) : List (ℕ × Uuid) := collect (M := system S) drawOf c.trace

/-- All insertions into the effect log. -/
def insertions (c : State S) : List (ℕ × Insertion) :=
  collect (M := system S) insertionOf c.trace

/-- All created approval requests. -/
def creations (c : State S) : List (ℕ × ApprovalRequest) :=
  collect (M := system S) creationOf c.trace

/-- All pushed undo entries. -/
def pushes (c : State S) : List (ℕ × Push) := collect (M := system S) pushOf c.trace

/-- Only successful database statements contribute. -/
structure SuccessOnly {β : Type} (f : Ran Stmt Stmt.Ret UndoLogError → Option β) : Prop where
  app : ∀ step reply, f ⟨.app step, reply⟩ = none
  error : ∀ q e, f ⟨.db q, .error e⟩ = none

theorem insertionOf_successOnly : SuccessOnly insertionOf :=
  ⟨fun _ _ => rfl, fun q _ => by cases q <;> rfl⟩

theorem creationOf_successOnly : SuccessOnly creationOf :=
  ⟨fun _ _ => rfl, fun q _ => by cases q <;> rfl⟩

theorem pushOf_successOnly : SuccessOnly pushOf :=
  ⟨fun _ _ => rfl, fun q _ => by cases q <;> rfl⟩

theorem ignoredOf_successOnly : SuccessOnly ignoredOf :=
  ⟨fun _ _ => rfl, fun q _ => by cases q <;> rfl⟩

/-- A contribution comes from a successful database statement. -/
theorem SuccessOnly.of_some {β : Type} {f : Ran Stmt Stmt.Ret UndoLogError → Option β}
    (hf : SuccessOnly f) {r : Ran Stmt Stmt.Ret UndoLogError} {x : β} (h : f r = some x) :
    ∃ q a, r = ⟨.db q, .ok a⟩ := by
  obtain ⟨st, reply⟩ := r
  cases st with
  | app step =>
    rw [hf.app step reply] at h
    cases h
  | db q =>
    cases reply with
    | error e =>
      rw [hf.error q e] at h
      cases h
    | ok a => exact ⟨q, a, rfl⟩

section Logs

variable {β : Type} {f : Ran Stmt Stmt.Ret UndoLogError → Option β}

/-- A logged contribution is that of a statement that has succeeded. -/
theorem SuccessOnly.mem_collect (hf : SuccessOnly f) {x : β} :
    (t, x) ∈ collect (M := system S) f c.trace ↔
      ∃ q a, Succeeded c t q a ∧ f ⟨.db q, .ok a⟩ = some x := by
  refine Machine.mem_collect.trans ⟨?_, fun ⟨q, a, hran, hx⟩ => ⟨.db q, .ok a, hran, hx⟩⟩
  rintro ⟨st, reply, hran, hx⟩
  obtain ⟨q, a, heq⟩ := hf.of_some hx
  cases heq
  exact ⟨q, a, hran, hx⟩

/-- A quiet step contributes nothing. -/
theorem QuietStep.collect {event : SystemEvent S} (h : QuietStep c c' event) (hf : SuccessOnly f) :
    collect (M := system S) f c'.trace = collect (M := system S) f c.trace := by
  rw [h.trace]
  refine collect_snoc_of_none ?_
  rintro t (step | q) reply rfl
  · exact hf.app step reply
  · cases reply with
    | error e => exact hf.error q e
    | ok a => cases h.quiet

theorem QueryStep.collect_some {x : β}
    (h : QueryStep c c' t o q a) (hx : f ⟨.db q, .ok a⟩ = some x) :
    collect (M := system S) f c'.trace = collect (M := system S) f c.trace ++ [(t, x)] := by
  rw [h.trace]
  exact collect_snoc (M := system S) hx

theorem QueryStep.collect_none (h : QueryStep c c' t o q a) (hx : f ⟨.db q, .ok a⟩ = none) :
    collect (M := system S) f c'.trace = collect (M := system S) f c.trace := by
  rw [h.trace]
  refine collect_snoc_of_none ?_
  rintro u st reply heq
  cases heq
  exact hx

end Logs

/-! ## Generated identifiers -/

theorem Query.run_issued {b : Backend} {w w' : World} {reply : Except UndoLogError q.Ret}
    (h : q.run b t o w = some (reply, w')) : w'.issued = w.issued := by
  rcases Query.run_cases h with ⟨e, -, rfl⟩ | ⟨a, db, -, -, -, rfl⟩
  · rfl
  · rfl

theorem draw_cases {choice : Choice (system S)} (h : Transition c choice c') :
    (∃ t u, u ∉ World.issued c.store ∧ World.issued c'.store = u :: World.issued c.store ∧
      draws c' = draws c ++ [(t, u)]) ∨
    (World.issued c'.store = World.issued c.store ∧ draws c' = draws c) := by
  have hquiet : ∀ event : SystemEvent S,
      (∀ t st reply, event = .ran t st reply → drawOf ⟨st, reply⟩ = none) →
      collect (M := system S) drawOf (c.trace ++ [event]) = draws c :=
    fun event hevent => collect_snoc_of_none hevent
  cases h with
  | start | finish | crash => exact .inr ⟨rfl, hquiet _ (by simp)⟩
  | @environment e store henv =>
    refine .inr ⟨?_, hquiet _ (by simp)⟩
    change e.run S.backend c.store = some store at henv
    cases e with
    | clock | refresh =>
      simp only [Env.run] at henv
      split at henv <;> cases henv
      rfl
    | restart =>
      cases henv
      rfl
  | @run t o st next reply store hcall hexec =>
    have hnone : drawOf ⟨st, reply⟩ = none →
        collect (M := system S) drawOf (c.trace ++ [.ran t st reply]) = draws c := by
      refine fun hdraw => hquiet _ ?_
      rintro u st' reply' heq
      cases heq
      exact hdraw
    cases st with
    | db q => exact .inr ⟨Query.run_issued hexec, hnone rfl⟩
    | app step =>
      change step.run o c.store = some (reply, store) at hexec
      cases step with
      | newUuid =>
        simp only [AppStep.run] at hexec
        split at hexec
        · cases hexec
        · next hnew =>
          cases hexec
          exact .inl ⟨t, _, hnew, rfl, collect_snoc (M := system S) rfl⟩
      | rateLimit | cacheGet =>
        refine .inr ⟨?_, hnone rfl⟩
        simp only [AppStep.run] at hexec
        split at hexec <;> cases hexec <;> rfl
      | _ =>
        cases hexec
        exact .inr ⟨rfl, hnone rfl⟩

theorem issued_draws (hc : Reaches S guard c) :
    World.issued c.store = ((draws c).map Prod.snd).reverse ∧ ((draws c).map Prod.snd).Nodup := by
  refine hc.invariant ?_ ?_
  · rintro w ⟨now, partitions, orgs, -, hissued, -⟩
    exact ⟨hissued, List.nodup_nil⟩
  · rintro c choice c' - ⟨hissued, hnodup⟩ - htrans
    rcases draw_cases htrans with ⟨t, u, hnew, hissued', hdraws⟩ | ⟨hissued', hdraws⟩
    · have hfresh : u ∉ (draws c).map Prod.snd := by simpa [hissued] using hnew
      rw [hissued', hissued, hdraws, List.map_append, List.reverse_append]
      refine ⟨rfl, List.nodup_append.mpr ⟨hnodup, List.nodup_singleton u, ?_⟩⟩
      rintro x hx y hy rfl
      obtain rfl := List.mem_singleton.mp hy
      exact hfresh hx
    · rw [hissued', hdraws]
      exact ⟨hissued, hnodup⟩

/-- An identifier is generated by one call only. -/
theorem draw_unique (hc : Reaches S guard c) {t t' : ℕ} {u : Uuid} (h : (t, u) ∈ draws c)
    (h' : (t', u) ∈ draws c) : t = t' := by
  have hpair := List.inj_on_of_nodup_map (issued_draws hc).2 h h' rfl
  exact congrArg Prod.fst hpair

theorem draw_of_drew {u : Uuid} (h : Drew (pastOf t c) u) : (t, u) ∈ draws c :=
  (mem_collect (M := system S)).mpr ⟨.app .newUuid, .ok u, mem_pastOf.mp h, rfl⟩

/-! ## Columns that never change -/

section Core

variable {row row' : EffectRow}

section

variable (h : row'.core = row.core)
include h

theorem core_effectId : row'.effectId = row.effectId :=
  (congrArg (fun r : EffectRow => r.effectId) h :)

theorem core_orgId : row'.orgId = row.orgId :=
  (congrArg (fun r : EffectRow => r.orgId) h :)

theorem core_callSignature : row'.callSignature = row.callSignature :=
  (congrArg (fun r : EffectRow => r.callSignature) h :)

theorem core_sessionId : row'.sessionId = row.sessionId :=
  (congrArg (fun r : EffectRow => r.sessionId) h :)

theorem core_stepIndex : row'.stepIndex = row.stepIndex :=
  (congrArg (fun r : EffectRow => r.stepIndex) h :)

theorem core_tier : row'.tier = row.tier :=
  (congrArg (fun r : EffectRow => r.tier) h :)

end

theorem core_approval {a a' : ApprovalRequest} (h : a'.core = a.core) :
    a'.approvalRequestId = a.approvalRequestId ∧ a'.orgId = a.orgId ∧
      a'.sessionId = a.sessionId ∧ a'.effectId = a.effectId ∧ a'.proposedArgs = a.proposedArgs :=
  ⟨(congrArg (fun a : ApprovalRequest => a.approvalRequestId) h :),
    (congrArg (fun a : ApprovalRequest => a.orgId) h :),
    (congrArg (fun a : ApprovalRequest => a.sessionId) h :),
    (congrArg (fun a : ApprovalRequest => a.effectId) h :),
    (congrArg (fun a : ApprovalRequest => a.proposedArgs) h :)⟩

end Core

/-! ## Effects -/

/-- The row of an insertion, whatever has happened to it since. -/
def RowOf (b : Backend) (row : EffectRow) (ins : Insertion) : Prop :=
  row.core = (ins.row b 0).core

section RowOf

variable {b : Backend} {row : EffectRow} {ins : Insertion} (h : RowOf b row ins)
include h

theorem RowOf.effectId : row.effectId = ins.effectId :=
  core_effectId h

theorem RowOf.orgId : row.orgId = ins.call.orgId :=
  core_orgId h

theorem RowOf.sessionId : row.sessionId = ins.call.sessionId :=
  core_sessionId h

theorem RowOf.callSignature : row.callSignature = ins.signature :=
  core_callSignature h

theorem RowOf.tier : row.tier = ins.tier :=
  core_tier h

theorem RowOf.stepIndex : row.stepIndex = stepColumn b ins.call.stepIndex :=
  core_stepIndex h

end RowOf

section Insertions

variable {t t' : ℕ} {ins ins' : Insertion}

theorem insertion_of_succeeded (h : Succeeded c t q a)
    (hins : insertionOf ⟨.db q, .ok a⟩ = some ins) : (t, ins) ∈ insertions c :=
  insertionOf_successOnly.mem_collect.mpr ⟨q, a, h, hins⟩

/-- The call of an insert, whether ignored or not, its signature and its identifier. -/
theorem Succeeded.insert_call (hc : Reaches S guard c) (h : Succeeded c t q a)
    (hins : insertionOf ⟨.db q, .ok a⟩ = some ins ∨ ignoredOf ⟨.db q, .ok a⟩ = some ins) :
    Started c t (.intercept ins.call) ∧ ins.signature = ins.call.signature S.hash ∧
      (t, ins.effectId.uuid) ∈ draws c := by
  cases q with
  | insertCompensable | insertIrreversible =>
    obtain ⟨call, before, hstart, hbefore, rfl, hsig, hdrew, -⟩ := h.intercept_pre hc rfl
    have hdraw := draw_of_drew (hbefore.subset hdrew)
    cases a <;> rcases hins with hins | hins <;> cases hins <;> exact ⟨hstart, hsig, hdraw⟩
  | _ => rcases hins with hins | hins <;> cases hins

theorem insertion_call (hc : Reaches S guard c) (h : (t, ins) ∈ insertions c) :
    Started c t (.intercept ins.call) ∧ ins.signature = ins.call.signature S.hash ∧
      (t, ins.effectId.uuid) ∈ draws c := by
  obtain ⟨q, a, hran, hins⟩ := insertionOf_successOnly.mem_collect.mp h
  exact hran.insert_call hc (.inl hins)

/-- The statement of an insertion, in the history of its call. -/
theorem insertion_mem_past (h : (t, ins) ∈ insertions c) :
    ∃ r ∈ pastOf t c, r.1.isInsert = true ∧ insertionOf r = some ins := by
  obtain ⟨q, a, hran, hins⟩ := insertionOf_successOnly.mem_collect.mp h
  refine ⟨_, succeeded_iff_done.mp hran, ?_, hins⟩
  cases q <;> first | rfl | cases hins

variable (hc : Reaches S guard c)
include hc

theorem insertion_unique (h : (t, ins) ∈ insertions c) (h' : (t, ins') ∈ insertions c) :
    ins = ins' := by
  obtain ⟨r, hr, hkind, hins⟩ := insertion_mem_past h
  obtain ⟨r', hr', hkind', hins'⟩ := insertion_mem_past h'
  obtain rfl := insert_once hc hr hr' hkind hkind'
  rw [hins] at hins'
  exact Option.some.inj hins'

/-- Insertions of the same effect are the same. -/
theorem insertion_eq_of_effectId (h : (t, ins) ∈ insertions c) (h' : (t', ins') ∈ insertions c)
    (heq : ins.effectId = ins'.effectId) : t = t' ∧ ins = ins' := by
  obtain ⟨-, -, hdraw⟩ := insertion_call hc h
  obtain ⟨-, -, hdraw'⟩ := insertion_call hc h'
  rw [← heq] at hdraw'
  obtain rfl := draw_unique hc hdraw hdraw'
  exact ⟨rfl, insertion_unique hc h h'⟩

/-- At the moment of an insertion its call has drawn its identifier and inserted
nothing. -/
theorem QueryStep.insertion_pre (h : QueryStep c c' t o q a)
    (hins : insertionOf ⟨.db q, .ok a⟩ = some ins) :
    (t, ins.effectId.uuid) ∈ draws c ∧ Free Stmt.isInsert (pastOf t c) := by
  obtain ⟨op, hstart, hpre⟩ := h.pre hc
  cases q with
  | insertCompensable | insertIrreversible =>
    obtain ⟨call, -, -, -, hdrew, hfree⟩ := intercept_of_pre hpre rfl
    cases a with
    | false => cases hins
    | true =>
      cases hins
      exact ⟨draw_of_drew hdrew, hfree⟩
  | _ => cases hins

theorem QueryStep.insertion_fresh (h : QueryStep c c' t o q a)
    (hins : insertionOf ⟨.db q, .ok a⟩ = some ins) :
    ∀ p ∈ insertions c, p.2.effectId ≠ ins.effectId := by
  rintro ⟨t', ins'⟩ hold heq
  obtain ⟨hdrawn, hfree⟩ := h.insertion_pre hc hins
  obtain ⟨-, -, hdraw⟩ := insertion_call hc hold
  rw [heq] at hdraw
  obtain rfl := draw_unique hc hdraw hdrawn
  obtain ⟨r, hr, hkind, -⟩ := insertion_mem_past hold
  simp [hfree r hr] at hkind

theorem insertions_keyed : Keyed (fun p : ℕ × Insertion => p.2.effectId) (insertions c) := by
  refine hc.invariant ?_ ?_
  · exact fun _ _ => List.nodup_nil
  · intro c choice c' hc hkeyed _ htrans
    rcases step_cases htrans with ⟨event, hquiet⟩ | ⟨t, o, q, a, -, hquery⟩
    · rw [insertions, hquiet.collect insertionOf_successOnly]
      exact hkeyed
    · cases hins : insertionOf ⟨.db q, .ok a⟩ with
      | none =>
        rw [insertions, hquery.collect_none hins]
        exact hkeyed
      | some ins =>
        rw [insertions, hquery.collect_some hins]
        exact hkeyed.append (hquery.insertion_fresh hc hins)

/-- The effect log is the log of insertions. -/
theorem effects_eq : (dbOf c).effects.map EffectRow.core =
      (insertions c).map fun p => (p.2.row S.backend 0).core := by
  refine hc.invariant ?_ ?_
  · rintro w ⟨now, partitions, orgs, hdb, -⟩
    change w.db.effects.map EffectRow.core = []
    rw [hdb]
    rfl
  · intro c choice c' _ ih _ htrans
    rcases step_cases htrans with ⟨event, hquiet⟩ | ⟨t, o, q, a, -, hquery⟩
    · rw [hquiet.tables.effects, insertions, hquiet.collect insertionOf_successOnly]
      exact ih
    · rcases (Outcome.of_tx hquery.tx).effects with ⟨ins, hins, -, heffects⟩ | ⟨hins, heffects⟩
      · rw [heffects, insertions, hquery.collect_some hins, List.map_append, List.map_append]
        exact congrArg₂ _ ih rfl
      · rw [heffects, insertions, hquery.collect_none hins, List.map_map]
        refine (List.map_congr_left fun row _ => ?_).trans ih
        exact (q.effectChange _ row).core

/-- Every effect has its insertion. -/
theorem insertion_of_row {row : EffectRow} (hrow : row ∈ (dbOf c).effects) :
    ∃ t ins, (t, ins) ∈ insertions c ∧ RowOf S.backend row ins := by
  have hmem := List.mem_map_of_mem (f := EffectRow.core) hrow
  rw [effects_eq hc] at hmem
  obtain ⟨⟨t, ins⟩, hins, hcore⟩ := List.mem_map.mp hmem
  exact ⟨t, ins, hins, hcore.symm⟩

/-- Every insertion still has its effect. -/
theorem row_of_insertion (h : (t, ins) ∈ insertions c) :
    ∃ row ∈ (dbOf c).effects, RowOf S.backend row ins := by
  have hmem := List.mem_map_of_mem (f := fun p => (Insertion.row S.backend 0 p.2).core) h
  rw [← effects_eq hc] at hmem
  obtain ⟨row, hrow, hcore⟩ := List.mem_map.mp hmem
  exact ⟨row, hrow, hcore⟩

/-- Effects are identified by `effect_id`, over all partitions. -/
theorem effects_keyed : Keyed EffectRow.effectId (dbOf c).effects := by
  have hids : (dbOf c).effects.map EffectRow.effectId =
      (insertions c).map fun p => p.2.effectId := by
    have hmap := congrArg (List.map EffectRow.effectId) (effects_eq hc)
    rw [List.map_map, List.map_map] at hmap
    exact hmap
  rw [Keyed, hids]
  exact insertions_keyed hc

end Insertions

/-! ## Approvals -/

/-- What the call that created an approval request has done. -/
structure CreatedBy (c : State S) (t : ℕ) (req : ApprovalRequest) (call : ToolCall)
    (inserted : Bool) : Prop where
  started : Started c t (.intercept call)
  request : ∃ reason now, Resolved call (.irreversible reason) (pastOf t c) ∧
    req = approvalRequestFor S.config call req.effectId reason req.approvalRequestId now
  drawn : (t, req.approvalRequestId.uuid) ∈ draws c
  drawnEffect : (t, req.effectId.uuid) ∈ draws c
  known : SessionKnown call (pastOf t c)
  insert : Succeeded c t (.insertIrreversible call (call.signature S.hash) req.effectId) inserted
  cleared : Cleared call.orgId (call.signature S.hash) inserted (pastOf t c)

section Creations

variable {t t' : ℕ} {req req' : ApprovalRequest}

/-- The statement of a creation. -/
theorem creation_event (h : (t, req) ∈ creations c) : Succeeded c t (.createApproval req) () := by
  obtain ⟨q, a, hran, hcreation⟩ := creationOf_successOnly.mem_collect.mp h
  cases q with
  | createApproval req' =>
    cases hcreation
    exact hran
  | _ => cases hcreation

theorem creation_of_succeeded (h : Succeeded c t (.createApproval req) ()) :
    (t, req) ∈ creations c :=
  creationOf_successOnly.mem_collect.mpr ⟨_, _, h, rfl⟩

section

variable (hc : Reaches S guard c)
include hc

theorem createdBy_of_pre {call : ToolCall} {before : History}
    (hstart : Started c t (.intercept call)) (hbefore : before <+: pastOf t c)
    (hpre : interceptPre S call before (.db (.createApproval req))) :
    ∃ inserted, CreatedBy c t req call inserted := by
  obtain ⟨effectId, reason, id, now, rfl, hdrew, -, hknown, htier, inserted, hdone, hclear⟩ := hpre
  have hinsert : Succeeded c t (.insertIrreversible call (call.signature S.hash) effectId)
      inserted := succeeded_iff_done.mpr (hbefore.subset hdone)
  obtain ⟨call', before', -, hbefore', -, -, hdrew', -⟩ := hinsert.intercept_pre hc rfl
  exact ⟨inserted, hstart, ⟨reason, now, hbefore.subset htier, rfl⟩,
    draw_of_drew (hbefore.subset hdrew), draw_of_drew (hbefore'.subset hdrew'),
    hknown.mono hbefore, hinsert, hclear.mono hbefore⟩

theorem creation_createdBy (h : (t, req) ∈ creations c) :
    ∃ call inserted, CreatedBy c t req call inserted := by
  obtain ⟨call, before, hstart, hbefore, hpre⟩ := (creation_event h).intercept_pre hc rfl
  obtain ⟨inserted, hcreated⟩ := createdBy_of_pre hc hstart hbefore hpre
  exact ⟨call, inserted, hcreated⟩

theorem creation_unique (h : (t, req) ∈ creations c) (h' : (t, req') ∈ creations c) :
    req = req' := by
  have hsame := creation_once hc (succeeded_iff_done.mp (creation_event h))
    (succeeded_iff_done.mp (creation_event h')) rfl rfl
  cases hsame
  rfl

end

/-- The approval of a creation, whatever has happened to it since. -/
def ApprovalOf (a req : ApprovalRequest) : Prop := a.core = (newApprovalRow req 0).core

theorem ApprovalOf.approvalRequestId {a : ApprovalRequest} (h : ApprovalOf a req) :
    a.approvalRequestId = req.approvalRequestId :=
  (core_approval h).1

theorem ApprovalOf.orgId {a : ApprovalRequest} (h : ApprovalOf a req) : a.orgId = req.orgId :=
  (core_approval h).2.1

theorem ApprovalOf.sessionId {a : ApprovalRequest} (h : ApprovalOf a req) :
    a.sessionId = req.sessionId :=
  (core_approval h).2.2.1

theorem ApprovalOf.effectId {a : ApprovalRequest} (h : ApprovalOf a req) :
    a.effectId = req.effectId :=
  (core_approval h).2.2.2.1

theorem ApprovalOf.proposedArgs {a : ApprovalRequest} (h : ApprovalOf a req) :
    a.proposedArgs = req.proposedArgs :=
  (core_approval h).2.2.2.2

variable (hc : Reaches S guard c)
include hc

theorem approvals_eq : (dbOf c).approvals.map ApprovalRequest.core =
      (creations c).map fun p => (newApprovalRow p.2 0).core := by
  refine hc.invariant ?_ ?_
  · rintro w ⟨now, partitions, orgs, hdb, -⟩
    change w.db.approvals.map ApprovalRequest.core = []
    rw [hdb]
    rfl
  · intro c choice c' _ ih _ htrans
    rcases step_cases htrans with ⟨event, hquiet⟩ | ⟨t, o, q, a, -, hquery⟩
    · rw [hquiet.tables.approvals, creations, hquiet.collect creationOf_successOnly]
      exact ih
    · rcases (Outcome.of_tx hquery.tx).approvals with ⟨req, hreq, -, happrovals⟩ |
        ⟨hreq, happrovals⟩
      · rw [happrovals, creations, hquery.collect_some hreq, List.map_append, List.map_append]
        exact congrArg₂ _ ih rfl
      · rw [happrovals, creations, hquery.collect_none hreq, List.map_map]
        refine (List.map_congr_left fun a _ => ?_).trans ih
        exact (q.approvalChange _ _ _ a).core

/-- Every approval has its creation. -/
theorem creation_of_approval {a : ApprovalRequest} (ha : a ∈ (dbOf c).approvals) :
    ∃ t req, (t, req) ∈ creations c ∧ ApprovalOf a req := by
  have hmem := List.mem_map_of_mem (f := ApprovalRequest.core) ha
  rw [approvals_eq hc] at hmem
  obtain ⟨⟨t, req⟩, hreq, hcore⟩ := List.mem_map.mp hmem
  exact ⟨t, req, hreq, hcore.symm⟩

/-- Every creation still has its approval. -/
theorem approval_of_creation (h : (t, req) ∈ creations c) :
    ∃ a ∈ (dbOf c).approvals, ApprovalOf a req := by
  have hmem := List.mem_map_of_mem (f := fun p : ℕ × ApprovalRequest =>
    (newApprovalRow p.2 0).core) h
  rw [← approvals_eq hc] at hmem
  obtain ⟨a, ha, hcore⟩ := List.mem_map.mp hmem
  exact ⟨a, ha, hcore⟩

/-- Approvals are identified by their identifier. -/
theorem approvals_keyed : Keyed ApprovalRequest.approvalRequestId (dbOf c).approvals := by
  refine keyed_invariant (·.approvals) hc (fun _ _ _ => rfl) SameTables.approvals ?_
  intro c c' t o q r _ _ hquery
  rcases (Outcome.of_tx hquery.tx).approvals with ⟨req, -, hnew, happrovals⟩ | ⟨-, happrovals⟩
  · exact .inl ⟨newApprovalRow req _, hnew, happrovals⟩
  · refine .inr ⟨_, fun a => ?_, happrovals⟩
    exact (congrArg (fun r : ApprovalRequest => r.approvalRequestId)
      (q.approvalChange S.backend t (dbOf c) a).core :)

/-- Approvals of the same effect are the same. -/
theorem approval_eq_of_effectId {a a' : ApprovalRequest} (ha : a ∈ (dbOf c).approvals)
    (ha' : a' ∈ (dbOf c).approvals) (heq : a.effectId = a'.effectId) : a = a' := by
  obtain ⟨t, req, hreq, hof⟩ := creation_of_approval hc ha
  obtain ⟨t', req', hreq', hof'⟩ := creation_of_approval hc ha'
  obtain ⟨call, inserted, hcreated⟩ := creation_createdBy hc hreq
  obtain ⟨call', inserted', hcreated'⟩ := creation_createdBy hc hreq'
  have hdraw := hcreated'.drawnEffect
  rw [← hof'.effectId, ← heq, hof.effectId] at hdraw
  obtain rfl := draw_unique hc hcreated.drawnEffect hdraw
  obtain rfl := creation_unique hc hreq hreq'
  refine (approvals_keyed hc).eq ha ha' ?_
  rw [hof.approvalRequestId, hof'.approvalRequestId]

end Creations

/-! ## Undo entries and sessions -/

theorem undo_eq (hc : Reaches S guard c) :
    (dbOf c).undo.map UndoRow.core = (pushes c).map fun p => (p.2.row S.backend 0).core := by
  refine hc.invariant ?_ ?_
  · rintro w ⟨now, partitions, orgs, hdb, -⟩
    change w.db.undo.map UndoRow.core = []
    rw [hdb]
    rfl
  · intro c choice c' _ ih _ htrans
    rcases step_cases htrans with ⟨event, hquiet⟩ | ⟨t, o, q, a, -, hquery⟩
    · rw [hquiet.tables.undo, pushes, hquiet.collect pushOf_successOnly]
      exact ih
    · rcases (Outcome.of_tx hquery.tx).undo with ⟨push, hpush, -, hundo⟩ | ⟨hpush, hundo⟩
      · rw [hundo, pushes, hquery.collect_some hpush, List.map_append, List.map_append]
        exact congrArg₂ _ ih rfl
      · rw [hundo, pushes, hquery.collect_none hpush, List.map_map]
        exact (List.map_congr_left fun u _ => (q.undoChange _ u).core).trans ih

/-- Every push still has its undo entry. -/
theorem undo_of_push (hc : Reaches S guard c) {push : Push} (h : (t, push) ∈ pushes c) :
    ∃ u ∈ (dbOf c).undo, u.core = (push.row S.backend 0).core := by
  have hmem := List.mem_map_of_mem (f := fun p : ℕ × Push => (p.2.row S.backend 0).core) h
  rw [← undo_eq hc] at hmem
  exact List.mem_map.mp hmem

theorem undo_keyed_of {κ : Type} {key : UndoRow → κ}
    (hkey : ∀ u u' : UndoRow, u'.core = u.core → key u' = key u)
    (hfresh : ∀ (push : Push) (now : Time) (u : UndoRow), u.undoId ≠ push.undoId →
      ¬(u.sessionId = push.call.sessionId ∧
        u.stackPosition = stepColumn S.backend push.call.stepIndex) →
      key u ≠ key (push.row S.backend now)) (hc : Reaches S guard c) : Keyed key (dbOf c).undo := by
  refine keyed_invariant (·.undo) hc (fun _ _ _ => rfl) SameTables.undo ?_
  intro c c' t o q a _ _ hquery
  rcases (Outcome.of_tx hquery.tx).undo with ⟨push, -, hnew, hundo⟩ | ⟨-, hundo⟩
  · exact .inl ⟨_, fun u hu => hfresh push _ u (hnew u hu).1 (hnew u hu).2, hundo⟩
  · exact .inr ⟨_, fun u => hkey u _ (q.undoChange _ u).core, hundo⟩

/-- A position of a session's undo stack is taken once. -/
theorem undo_keyed (hc : Reaches S guard c) :
    Keyed (fun u : UndoRow => (u.sessionId, u.stackPosition)) (dbOf c).undo := by
  refine undo_keyed_of (fun u u' hcore => ?_) (fun push now u _ hplace heq => hplace ?_) hc
  · exact (congrArg (fun r : UndoRow => (r.sessionId, r.stackPosition)) hcore :)
  · exact ⟨congrArg Prod.fst heq, congrArg Prod.snd heq⟩

/-- Undo entries are identified by `undo_id`. -/
theorem undoIds_keyed (hc : Reaches S guard c) : Keyed UndoRow.undoId (dbOf c).undo :=
  undo_keyed_of (fun _ _ hcore => (congrArg (fun r : UndoRow => r.undoId) hcore :))
    (fun _ _ _ hid _ heq => hid heq) hc

theorem sessions_keyed (hc : Reaches S guard c) :
    Keyed SessionRecord.sessionId (dbOf c).sessions := by
  refine keyed_invariant (·.sessions) hc (fun _ _ _ => rfl) SameTables.sessions ?_
  intro c c' t o q a _ _ hquery
  rcases (Outcome.of_tx hquery.tx).sessions with ⟨orgId, sessionId, -, hnew, hsessions⟩ |
    ⟨f, hsessions, hmoves⟩
  · exact .inl ⟨newSession orgId sessionId _, hnew, hsessions⟩
  · exact .inr ⟨f, fun s => (hmoves s).1, hsessions⟩

end UndoLog
