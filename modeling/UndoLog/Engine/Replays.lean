import UndoLog.Concurrent.Rely
import UndoLog.Engine.Known
import UndoLog.Engine.Settlement

/-!
# A logged call is made again

What `intercept` answers when the effect log has rows under the signature of the call, while
others work elsewhere: the answer comes from one of these rows, and the counter of the row is
incremented before it is given.
-/

namespace UndoLog

open Concurrent Machine Relational

variable {S : Setup} {orgId : OrgId} {signature : CallSignature} {w w' : World}

/-- The rows of an organisation under a signature. -/
def underSignature (orgId : OrgId) (signature : CallSignature) (w : World) : List EffectRow :=
  w.db.effects.filter fun row => row.callSignature = signature ∧ row.orgId = orgId

/-- A change that keeps the rows of an organisation under a signature. -/
structure Elsewhere (orgId : OrgId) (signature : CallSignature) (w w' : World) : Prop where
  rows : underSignature orgId signature w' = underSignature orgId signature w
  orgs : w'.db.orgs = w.db.orgs
  keyed : Keyed EffectRow.effectId w.db.effects → Keyed EffectRow.effectId w'.db.effects

theorem Elsewhere.refl (w : World) : Elsewhere orgId signature w w := ⟨rfl, rfl, id⟩

theorem Elsewhere.trans {w'' : World} (h : Elsewhere orgId signature w w')
    (h' : Elsewhere orgId signature w' w'') : Elsewhere orgId signature w w'' :=
  ⟨h'.rows.trans h.rows, h'.orgs.trans h.orgs, fun hkeyed => h'.keyed (h.keyed hkeyed)⟩

theorem Elsewhere.of_effects (heffects : w'.db.effects = w.db.effects)
    (horgs : w'.db.orgs = w.db.orgs) : Elsewhere orgId signature w w' := by
  refine ⟨?_, horgs, ?_⟩
  · rw [underSignature, heffects]
    rfl
  · rw [heffects]
    exact id

/-! ## Statements -/

section Statements

variable {allowed : Oracle → Prop} {t : ℕ} {α : Type}
  {post : Except UndoLogError α → World → Prop}

theorem ensures_app_bind {step : AppStep} {f : step.Ret → Proc α} (hsome : ∃ o, allowed o)
    (h : ∀ w₁, Elsewhere orgId signature w w₁ → ∀ o, allowed o →
      ∃ a w₂, step.run o w₁ = some (.ok a, w₂) ∧
        Ensures (M := system S) (Elsewhere orgId signature) allowed t post (f a) w₂) :
    Ensures (M := system S) (Elsewhere orgId signature) allowed t post (app step >>= f) w := by
  obtain ⟨o, ho⟩ := hsome
  refine ensures_stmt_bind (M := system S) ?_ ?_ ?_
  · intro w₁ hrely
    obtain ⟨a, w₂, hrun, -⟩ := h w₁ hrely o ho
    exact ⟨o, ho, Option.isSome_iff_exists.mpr ⟨_, hrun⟩⟩
  · intro w₁ hrely o ho a w₂ hexec
    obtain ⟨a', w₂', hrun, hrest⟩ := h w₁ hrely o ho
    cases hrun.symm.trans hexec
    exact hrest
  · intro w₁ hrely o ho e w₂ hexec
    obtain ⟨a', w₂', hrun, -⟩ := h w₁ hrely o ho
    cases hrun.symm.trans hexec

/-- A statement of the database, and then the rest. -/
theorem ensures_query_bind {q : Query} {f : q.Ret → Proc α} (hsome : ∃ o, allowed o)
    (hcalm : ∀ o, allowed o → o.fault = false) (hblocked : ∀ db, q.blocked t db = false)
    (h : ∀ w₁, Elsewhere orgId signature w w₁ → ∀ o, allowed o →
      (∃ a db, q.tx S.backend t o w₁.db = .ok (a, db) ∧
        Ensures (M := system S) (Elsewhere orgId signature) allowed t post (f a)
          { w₁ with db := db }) ∨ ∃ e, q.tx S.backend t o w₁.db = .error e ∧
        ∀ w₂, Elsewhere orgId signature w₁ w₂ → post (.error e) w₂) :
    Ensures (M := system S) (Elsewhere orgId signature) allowed t post (query q >>= f) w := by
  obtain ⟨o, ho⟩ := hsome
  refine ensures_stmt_bind (M := system S) ?_ ?_ ?_
  · intro w₁ hrely
    refine ⟨o, ho, Option.isSome_iff_exists.mpr ?_⟩
    rcases h w₁ hrely o ho with ⟨a, db, htx, -⟩ | ⟨e, htx, -⟩
    · exact ⟨_, Query.run_ok (hcalm o ho) (hblocked _) htx⟩
    · exact ⟨_, Query.run_error (hcalm o ho) (hblocked _) htx⟩
  · intro w₁ hrely o ho a w₂ hexec
    rcases h w₁ hrely o ho with ⟨a', db, htx, hrest⟩ | ⟨e, htx, -⟩
    · cases (Query.run_ok (hcalm o ho) (hblocked _) htx).symm.trans hexec
      exact hrest
    · cases (Query.run_error (hcalm o ho) (hblocked _) htx).symm.trans hexec
  · intro w₁ hrely o ho e w₂ hexec w₃ hlater
    rcases h w₁ hrely o ho with ⟨a', db, htx, -⟩ | ⟨e', htx, hpost⟩
    · cases (Query.run_ok (hcalm o ho) (hblocked _) htx).symm.trans hexec
    · cases (Query.run_error (hcalm o ho) (hblocked _) htx).symm.trans hexec
      have hback : Elsewhere orgId signature w₁ (w₁.rollback t) := .of_effects rfl rfl
      exact hpost w₃ (hback.trans hlater)

end Statements

/-! ## The session and the lock -/

section Before

variable {allowed : Oracle → Prop} {t : ℕ} {call : ToolCall}

theorem ensureSession_ensures (hsome : ∃ o, allowed o) (hcalm : ∀ o, allowed o → o.fault = false)
    (hknown : S.backend = .postgres → call.orgId ∈ w.db.orgs) :
    Ensures (M := system S) (Elsewhere orgId signature) allowed t
      (fun r w' => r = .ok () ∧ Elsewhere orgId signature w w') (ensureSession call) w := by
  have hperform : ∀ (record : SessionRecord) (w₁ : World), Elsewhere orgId signature w w₁ →
      Ensures (M := system S) (Elsewhere orgId signature) allowed t
        (fun r w' => r = .ok () ∧ Elsewhere orgId signature w w')
        (perform (.cacheInsert record)) w₁ := by
    intro record w₁ h₁ w₂ h₂
    obtain ⟨o, ho⟩ := hsome
    refine ⟨⟨o, ho, rfl⟩, fun o ho reply w₃ hexec w₄ h₄ => ⟨rfl, ?_⟩⟩
    have hcached : Elsewhere orgId signature w₂ w₃ := by
      cases hexec
      exact .of_effects rfl rfl
    exact (h₁.trans h₂).trans (hcached.trans h₄)
  refine ensures_app_bind hsome fun w₁ h₁ o ho => ?_
  have hread : ∃ cached w₂, (AppStep.cacheGet call.orgId call.sessionId).run o w₁ =
      some (.ok cached, w₂) ∧ Elsewhere orgId signature w₁ w₂ := by
    simp only [AppStep.run]
    split
    · exact ⟨_, _, rfl, .of_effects rfl rfl⟩
    · exact ⟨_, _, rfl, .refl _⟩
  obtain ⟨cached, w₂, hrun, h₂⟩ := hread
  refine ⟨cached, w₂, hrun, ?_⟩
  cases cached with
  | some record => exact fun w₃ h₃ => ⟨rfl, h₁.trans (h₂.trans h₃)⟩
  | none =>
    refine ensures_query_bind hsome hcalm (fun _ => rfl) fun w₃ h₃ o ho => .inl ⟨_, _, rfl, ?_⟩
    have hw₃ := h₁.trans (h₂.trans h₃)
    cases w₃.db.sessions.find? (ofSession call.orgId call.sessionId) with
    | some record => exact hperform record w₃ hw₃
    | none =>
      refine ensures_query_bind hsome hcalm (fun _ => rfl) fun w₄ h₄ o ho => .inl ?_
      have hw₄ := hw₃.trans h₄
      have hcreate : ∃ db, createSession S.backend call.orgId call.sessionId w₄.db = .ok ((), db) ∧
          db.effects = w₄.db.effects ∧ db.orgs = w₄.db.orgs := by
        unfold createSession
        split
        · exact ⟨_, rfl, rfl, rfl⟩
        · rw [if_neg fun hmissing => hmissing.2 (by rw [hw₄.orgs]; exact hknown hmissing.1)]
          exact ⟨_, rfl, rfl, rfl⟩
      obtain ⟨db, hcreated, heffects, horgs⟩ := hcreate
      refine ⟨(), db, hcreated, ?_⟩
      refine ensures_query_bind hsome hcalm (fun _ => rfl) fun w₅ h₅ o ho => .inl ⟨_, _, rfl, ?_⟩
      have hw₅ := hw₄.trans ((Elsewhere.of_effects heffects horgs).trans h₅)
      cases w₅.db.sessions.find? (ofSession call.orgId call.sessionId) with
      | some record => exact hperform record w₅ hw₅
      | none => exact fun w₆ h₆ => ⟨rfl, hw₅.trans h₆⟩

theorem acquireAdvisoryLock_ensures {attempts : ℕ} (hsome : ∃ o, allowed o)
    (hcalm : ∀ o, allowed o → o.calm = true) (hattempts : S.backend = .postgres → 0 < attempts) :
    Ensures (M := system S) (Elsewhere orgId signature) allowed t
      (fun r w' => r = .ok () ∧ Elsewhere orgId signature w w')
      (acquireAdvisoryLock S.backend signature attempts) w := by
  cases hb : S.backend with
  | sqlite => exact fun w₁ h₁ => ⟨rfl, h₁⟩
  | postgres =>
    obtain ⟨n, rfl⟩ := Nat.exists_eq_succ_of_ne_zero (hattempts hb).ne'
    refine ensures_query_bind hsome (fun o ho => (Oracle.calm_iff.mp (hcalm o ho)).1)
      (fun _ => rfl) fun w₁ h₁ o ho => .inl ⟨true, w₁.db, ?_, ?_⟩
    · simp only [Query.tx, (Oracle.calm_iff.mp (hcalm o ho)).2.1]
      rfl
    · exact fun w₂ h₂ => ⟨rfl, h₁.trans h₂⟩

end Before

/-! ## What a logged call has done before -/

section Logged

variable {guard : Guard (system S)} {c : State S}

theorem intercept_without_attempts {call : ToolCall} (hb : S.backend = .postgres)
    (hzero : S.config.lockMaxAttempts = 0) :
    Program.Satisfies (fun _ st => st.isInsert = false) (fun _ _ => True) []
      (programOf S (.intercept call)) := by
  have hfail : ∀ past, Program.Satisfies (fun _ (st : Stmt) => st.isInsert = false)
      (fun _ _ => True) past (do
        acquireAdvisoryLock S.backend (call.signature S.hash) S.config.lockMaxAttempts
        lookupOrRoute S.config call (call.signature S.hash)) := by
    intro past
    rw [hb, hzero]
    trivial
  have hsession : ∀ past, Program.Satisfies (fun _ (st : Stmt) => st.isInsert = false)
      (fun _ _ => True) past (ensureSession call) := by
    intro past
    refine Program.satisfies_stmt_bind rfl (fun _ => trivial) ?_
    rintro (_ | cached)
    · refine Program.satisfies_stmt_bind rfl (fun _ => trivial) ?_
      rintro (_ | record)
      · refine Program.satisfies_stmt_bind rfl (fun _ => trivial) fun _ => ?_
        refine Program.satisfies_stmt_bind rfl (fun _ => trivial) ?_
        rintro (_ | record)
        · trivial
        · exact ⟨rfl, fun _ => trivial⟩
      · exact ⟨rfl, fun _ => trivial⟩
    · trivial
  refine Program.Satisfies.bind ?_
  refine Program.satisfies_stmt_bind rfl (fun _ => trivial) fun _ => ?_
  refine (hsession _).andThen ?_
  rintro past (_ | _) -
  · trivial
  · refine (hfail past).mono (fun _ _ h => h) ?_
    rintro past (_ | _) -
    · trivial
    · trivial

theorem attempts_pos_of_insertion (hc : Reaches S guard c) {t : ℕ} {ins : Insertion}
    (hins : (t, ins) ∈ insertions c) (hb : S.backend = .postgres) :
    0 < S.config.lockMaxAttempts := by
  by_contra hpos
  have hzero : S.config.lockMaxAttempts = 0 := by omega
  obtain ⟨hstart, -, -⟩ := insertion_call hc hins
  obtain ⟨⟨st, reply⟩, hx, hkind, -⟩ := insertion_mem_past hins
  obtain ⟨p, hpath⟩ := hc.coherent.following t _ hstart
  obtain ⟨before, -, -, hnot⟩ := hpath.pre_of_mem (intercept_without_attempts hb hzero) hx
  rw [hkind] at hnot
  cases hnot

theorem org_of_released (hb : S.backend = .postgres) (hc : Reaches S guard c) {row : EffectRow}
    (hrow : row ∈ (dbOf c).effects) (h : Released c row) : row.orgId ∈ (dbOf c).orgs := by
  rcases h with ⟨-, t, orgId, hran⟩ | ⟨a, ha, heffect, -⟩
  · obtain ⟨call, before, -, hbefore, hpre⟩ := hran.intercept_pre hc rfl
    obtain ⟨t', ins, hins, hof⟩ := insertion_of_row hc hrow
    obtain ⟨hstart, -, hdraw⟩ := insertion_call hc hins
    rw [← hof.effectId] at hdraw
    obtain rfl := draw_unique hc (drawn_of_executing hc hbefore hpre) hdraw
    obtain ⟨-, compensation, undoId, hpush, -⟩ := hpre
    have hpushed : Succeeded c t (.insertUndo call row.effectId compensation undoId) () :=
      succeeded_iff_done.mpr (hbefore.subset hpush)
    obtain ⟨call', before', hstart', hbefore', -, -, inserted, -, -, htier⟩ :=
      hpushed.intercept_pre hc rfl
    obtain rfl : call' = ins.call := Op.intercept.inj (hstart'.unique hc hstart)
    rw [hof.orgId]
    exact org_of_resolved hb hc (hbefore'.subset htier) (by simp)
  · obtain ⟨t, req, hreq, hof⟩ := creation_of_approval hc ha
    obtain ⟨call, inserted, hcreated⟩ := creation_createdBy hc hreq
    obtain ⟨reason, now, htier, hrequest⟩ := hcreated.request
    have horg : req.orgId = call.orgId := by rw [hrequest]; rfl
    rw [(approval_row hc ha hrow heffect).orgId, hof.orgId, horg]
    exact org_of_resolved hb hc htier (by simp)

end Logged

/-! ## The answer -/

/-- The answer that a row of the effect log gives on PostgreSQL. -/
def replayOf (row : EffectRow) : Except UndoLogError InterceptOutcome :=
  match mapEffectRow row with
  | .error e => .error e
  | .ok record =>
    if smallintMax ≤ row.replayCount then .error .database
    else .ok (.replay record.effectId record.resultSnapshot)

/-- A row after one more replay. -/
def EffectRow.counted (now : Time) (row : EffectRow) : EffectRow :=
  { row with replayCount := row.replayCount + 1, lastReplayedAt := some now, state := .replayed }

/-- The rows under a signature after the answer from one of them. -/
def CountedIn (orgId : OrgId) (row : EffectRow) (rows rows' : List EffectRow) : Prop :=
  match replayOf row with
  | .ok _ => ∃ now, rows' = updateWhere (ofEffect orgId row.effectId) (·.counted now) rows
  | .error _ => rows' = rows

/-- A call was answered from one of the rows under its signature. -/
structure Answered (allowed : Oracle → Prop) (orgId : OrgId) (signature : CallSignature)
    (w : World) (r : Except UndoLogError InterceptOutcome) (w' : World) : Prop where
  row : ∃ o row, allowed o ∧ limitOne o.pick (underSignature orgId signature w) = some row ∧
    r = replayOf row ∧
    CountedIn orgId row (underSignature orgId signature w) (underSignature orgId signature w')
  orgs : w'.db.orgs = w.db.orgs
  keyed : Keyed EffectRow.effectId w'.db.effects

theorem Answered.amid {allowed : Oracle → Prop} {r : Except UndoLogError InterceptOutcome}
    {w'' : World} (h : Answered allowed orgId signature w r w')
    (hrely : Elsewhere orgId signature w' w'') : Answered allowed orgId signature w r w'' := by
  obtain ⟨o, row, ho, hpick, hr, hcounted⟩ := h.row
  refine ⟨⟨o, row, ho, hpick, hr, ?_⟩, hrely.orgs.trans h.orgs, hrely.keyed h.keyed⟩
  rw [hrely.rows]
  exact hcounted

section Answer

variable {allowed : Oracle → Prop} {t : ℕ} {call : ToolCall}

theorem markReplayed_eq (hb : S.backend = .postgres)
    (hkeyed : Keyed EffectRow.effectId w.db.effects) {row : EffectRow}
    (hrow : row ∈ underSignature orgId signature w) :
    markReplayed S.backend orgId row.effectId w.db =
      if smallintMax ≤ row.replayCount then .error .database
      else .ok ((), { w.db with
        effects := updateWhere (ofEffect orgId row.effectId)
          (·.counted w.db.now) w.db.effects }) := by
  obtain ⟨hmem, hkey⟩ := List.mem_filter.mp hrow
  obtain ⟨-, horg⟩ := of_decide_eq_true hkey
  have hfull : (S.backend = .postgres ∧ w.db.effects.any (fun other =>
      ofEffect orgId row.effectId other ∧ smallintMax ≤ other.replayCount) = true) ↔
      smallintMax ≤ row.replayCount := by
    constructor
    · rintro ⟨-, hany⟩
      obtain ⟨other, hother, hboth⟩ := List.any_eq_true.mp hany
      obtain ⟨hof, hmax⟩ := of_decide_eq_true hboth
      rwa [hkeyed.eq hmem hother (ofEffect_iff.mp hof).1.symm]
    · intro hmax
      refine ⟨hb, List.any_eq_true.mpr ⟨row, hmem, decide_eq_true ⟨?_, hmax⟩⟩⟩
      exact ofEffect_iff.mpr ⟨rfl, horg⟩
  unfold markReplayed
  by_cases hmax : smallintMax ≤ row.replayCount
  · rw [if_pos hmax, if_pos (hfull.mpr hmax)]
  · rw [if_neg hmax, if_neg fun h => hmax (hfull.mp h)]
    rfl

theorem underSignature_counted {effectId : EffectId} {now : Time} (hw : w'.db.effects =
      updateWhere (ofEffect orgId effectId) (·.counted now) w.db.effects) :
    underSignature orgId signature w' =
      updateWhere (ofEffect orgId effectId) (·.counted now) (underSignature orgId signature w) := by
  rw [underSignature, hw, updateWhere, List.filter_map]
  congr 2
  funext row
  rw [Function.comp_apply]
  cases hof : ofEffect orgId effectId row with
  | true => rw [updateRow_of_pos hof]; rfl
  | false => rw [updateRow_of_neg hof]

theorem lookupOrRoute_ensures (hb : S.backend = .postgres) (hsome : ∃ o, allowed o)
    (hcalm : ∀ o, allowed o → o.calm = true) (hkeyed : Keyed EffectRow.effectId w.db.effects)
    (hlogged : underSignature call.orgId signature w ≠ []) :
    Ensures (M := system S) (Elsewhere call.orgId signature) allowed t
      (Answered allowed call.orgId signature w) (lookupOrRoute S.config call signature) w := by
  have hquiet : ∀ o, allowed o → o.fault = false := fun o ho => (Oracle.calm_iff.mp (hcalm o ho)).1
  refine ensures_query_bind hsome hquiet (fun _ => rfl) fun w₁ h₁ o ho => ?_
  obtain ⟨row, hpick⟩ := limitOne_of_ne_nil hlogged o.pick
  have hfind : findBySignature o.pick call.orgId signature w₁.db =
      ((mapEffectRow row).map some).map fun found => (found, w₁.db) := by
    have hsame : limitOne o.pick (underSignature call.orgId signature w₁) = some row := by
      rw [h₁.rows]
      exact hpick
    rw [underSignature] at hsame
    simp only [findBySignature, Tx.query, hsame]
    cases mapEffectRow row <;> rfl
  cases hmap : mapEffectRow row with
  | error e =>
    right
    refine ⟨e, by rw [Query.tx, hfind, hmap]; rfl, fun w₂ h₂ => ?_⟩
    have hreplay : replayOf row = .error e := by rw [replayOf, hmap]
    refine ⟨⟨o, row, ho, hpick, hreplay.symm, ?_⟩, (h₁.trans h₂).orgs, (h₁.trans h₂).keyed hkeyed⟩
    rw [CountedIn, hreplay]
    exact (h₁.trans h₂).rows
  | ok record =>
    left
    refine ⟨some record, w₁.db, by rw [Query.tx, hfind, hmap]; rfl, ?_⟩
    refine ensures_query_bind hsome hquiet (fun _ => rfl) fun w₂ h₂ o' ho' => ?_
    have hw₂ := h₁.trans h₂
    have hrow : row ∈ underSignature call.orgId signature w₂ := by
      rw [hw₂.rows]
      exact limitOne_mem hpick
    have hmark := markReplayed_eq hb (hw₂.keyed hkeyed) hrow
    rw [← mapEffectRow_effectId hmap] at hmark
    by_cases hmax : smallintMax ≤ row.replayCount
    · right
      refine ⟨.database, by rw [Query.tx, hmark, if_pos hmax], fun w₃ h₃ => ?_⟩
      have hreplay : replayOf row = .error .database := by simp only [replayOf, hmap, if_pos hmax]
      have hw₃ := hw₂.trans h₃
      refine ⟨⟨o, row, ho, hpick, hreplay.symm, ?_⟩, hw₃.orgs, hw₃.keyed hkeyed⟩
      rw [CountedIn, hreplay]
      exact hw₃.rows
    · left
      refine ⟨(), _, by rw [Query.tx, hmark, if_neg hmax], fun w₃ h₃ => ?_⟩
      have hreplay : replayOf row = .ok (.replay record.effectId record.resultSnapshot) := by
        simp only [replayOf, hmap, if_neg hmax]
      refine ⟨⟨o, row, ho, hpick, hreplay.symm, ?_⟩, ?_, ?_⟩
      · rw [CountedIn, hreplay]
        refine ⟨w₂.db.now, ?_⟩
        rw [h₃.rows, ← mapEffectRow_effectId hmap, ← hw₂.rows]
        exact underSignature_counted rfl
      · exact h₃.orgs.trans hw₂.orgs
      · exact h₃.keyed ((hw₂.keyed hkeyed).updateWhere fun _ => rfl)

/-- A call ensures what the lookup of its signature ensures once the lock is taken. -/
theorem intercept_ensures_of_lookup {post : Except UndoLogError InterceptOutcome → World → Prop}
    (hsome : ∃ o, allowed o) (hcalm : ∀ o, allowed o → o.calm = true)
    (hattempts : S.backend = .postgres → 0 < S.config.lockMaxAttempts)
    (hknown : S.backend = .postgres → call.orgId ∈ w.db.orgs)
    (hlookup : ∀ w₁, Elsewhere call.orgId (call.signature S.hash) w w₁ →
      Ensures (M := system S) (Elsewhere call.orgId (call.signature S.hash)) allowed t post
        (lookupOrRoute S.config call (call.signature S.hash)) w₁)
    (hamid : ∀ {r w₁ w₂}, post r w₁ → Elsewhere call.orgId (call.signature S.hash) w₁ w₂ →
      post r w₂) :
    Ensures (M := system S) (Elsewhere call.orgId (call.signature S.hash)) allowed t
      (fun r w' => ∃ r', r = r'.map OpResult.intercepted ∧ post r' w')
      (programOf S (.intercept call)) w := by
  have hrefl : ∀ x, Elsewhere call.orgId (call.signature S.hash) x x := .refl
  have hquiet : ∀ o, allowed o → o.fault = false := fun o ho => (Oracle.calm_iff.mp (hcalm o ho)).1
  refine Ensures.bind (M := system S) hrefl ?_
  refine ensures_app_bind hsome fun w₁ h₁ o ho => ⟨(), w₁, ?_, ?_⟩
  · simp only [AppStep.run, (Oracle.calm_iff.mp (hcalm o ho)).2.2]
  refine Ensures.bind (M := system S) hrefl ?_
  refine (ensureSession_ensures hsome hquiet (by rw [h₁.orgs]; exact hknown)).mono ?_
  rintro _ w₂ ⟨rfl, h₂⟩
  refine Ensures.bind (M := system S) hrefl ?_
  refine (acquireAdvisoryLock_ensures hsome hcalm hattempts).mono ?_
  rintro _ w₃ ⟨rfl, h₃⟩
  refine (hlookup w₃ (h₁.trans (h₂.trans h₃))).mono ?_
  intro r w₄ hpost
  cases r with
  | ok outcome => exact fun w₅ h₅ => ⟨.ok outcome, rfl, hamid hpost h₅⟩
  | error e => exact fun w₅ h₅ => ⟨.error e, rfl, hamid hpost h₅⟩

theorem intercept_ensures (hb : S.backend = .postgres) (hsome : ∃ o, allowed o)
    (hcalm : ∀ o, allowed o → o.calm = true) (hattempts : 0 < S.config.lockMaxAttempts)
    (hknown : call.orgId ∈ w.db.orgs) (hkeyed : Keyed EffectRow.effectId w.db.effects)
    (hlogged : underSignature call.orgId (call.signature S.hash) w ≠ []) :
    Ensures (M := system S) (Elsewhere call.orgId (call.signature S.hash)) allowed t
      (fun r w' => ∃ r', r = r'.map OpResult.intercepted ∧
        Answered allowed call.orgId (call.signature S.hash) w r' w')
      (programOf S (.intercept call)) w := by
  refine intercept_ensures_of_lookup hsome hcalm (fun _ => hattempts) (fun _ => hknown)
    (fun w₁ h₁ => ?_) .amid
  refine (lookupOrRoute_ensures hb hsome hcalm (h₁.keyed hkeyed) ?_).mono fun r w₂ hanswered => ?_
  · rw [h₁.rows]
    exact hlogged
  · obtain ⟨o, row, ho, hpick, hr, hcounted⟩ := hanswered.row
    rw [h₁.rows] at hpick hcounted
    exact ⟨⟨o, row, ho, hpick, hr, hcounted⟩, hanswered.orgs.trans h₁.orgs, hanswered.keyed⟩

end Answer

end UndoLog
