import UndoLog.Engine.Steps

/-!
# What an undisturbed compensation does

A compensation that runs alone walks down the undo stack of its session. Each entry is undone
and marked, or it fails and the walk ends with a halted session. `Walks` says so without
programs and requests, and `compensateSession` refines it.
-/

namespace UndoLog

open Concurrent Machine Relational

variable {S : Setup} {t : ℕ} {w w' : World}

/-! ## Requests that run alone -/

variable {reason endpoint : String} {state : SessionState} {entry : UndoEntry}
  {registry : CompensationRegistry}

theorem ends_ok {α : Type} {a b : α} :
    Ends (M := system S) t (.done (.ok a)) w (.ok b) w' ↔ b = a ∧ w' = w :=
  ends_done.trans (and_congr_left' ⟨Except.ok.inj, congrArg _⟩)

theorem ends_post {undoId : UndoId} {args : Json} {response : HttpResponse} :
    Ends (M := system S) t (app (.post endpoint undoId args)) w (.ok response) w' ↔ w' = w := by
  refine ends_stmt.trans ⟨?_, ?_⟩
  · rintro ⟨o, hexec⟩
    cases hexec
    rfl
  · rintro rfl
    exact ⟨{ response }, rfl⟩

/-! ## The walk -/

/-- A response after which the request loop can give up with a reason. -/
def GivesUp (registry : CompensationRegistry) (last : String) : Prop :=
  ∃ response, classify registry response = .permanent last ∨
    classify registry response = .retryable last

/-- An entry can fail for good with a reason. -/
def FailsWith (registry : CompensationRegistry) (entry : UndoEntry) (reason : String) : Prop :=
  match registry.endpointFor entry.compensation.fnName with
  | none => reason = "missing compensation endpoint for key " ++ entry.compensation.fnName
  | some _ => ∃ last, GivesUp registry last ∧
      reason = if last = "" then "compensation retries exhausted" else last

theorem failsWith_of_none
    (h : registry.endpointFor entry.compensation.fnName = none) : FailsWith registry entry reason ↔
      reason = "missing compensation endpoint for key " ++ entry.compensation.fnName := by
  rw [FailsWith, h]

theorem failsWith_of_some (h : (registry.endpointFor entry.compensation.fnName).isSome = true) :
    FailsWith registry entry reason ↔ ∃ last, GivesUp registry last ∧
      reason = if last = "" then "compensation retries exhausted" else last := by
  obtain ⟨endpoint, hendpoint⟩ := Option.isSome_iff_exists.mp h
  rw [FailsWith, hendpoint]

/-- The walk over the undo stack: from a database to the state that is reported and the
database at the end. -/
inductive Walks (registry : CompensationRegistry) (orgId : OrgId) (sessionId : SessionId) :
    List UndoEntry → Db → SessionState → Db → Prop
  | compensated {db db' : Db} (hsession : setCompensated orgId sessionId db = .ok ((), db')) :
      Walks registry orgId sessionId [] db .compensated db'
  | skipped {entry : UndoEntry} {rest : List UndoEntry} {db db' : Db} {state : SessionState}
      (hterminal : entry.state.isTerminal = true)
      (hrest : Walks registry orgId sessionId rest db state db') :
      Walks registry orgId sessionId (entry :: rest) db state db'
  | undone {entry : UndoEntry} {rest : List UndoEntry} {db db₁ db' : Db} {state : SessionState}
      (hopen : entry.state.isTerminal = false)
      (hendpoint : (registry.endpointFor entry.compensation.fnName).isSome = true)
      (hentry : markCompensated orgId entry.undoId db = .ok ((), db₁))
      (hrest : Walks registry orgId sessionId rest db₁ state db') :
      Walks registry orgId sessionId (entry :: rest) db state db'
  | halted {entry : UndoEntry} {rest : List UndoEntry} {db db₁ db₂ db' : Db} {reason : String}
      (hopen : entry.state.isTerminal = false) (hfails : FailsWith registry entry reason)
      (hentry : markCompensationFailed orgId entry.undoId reason db = .ok ((), db₁))
      (heffect : markEffectCompensationFailed orgId entry.effectId db₁ = .ok ((), db₂))
      (hsession : setHalted orgId sessionId reason db₂ = .ok ((), db')) :
      Walks registry orgId sessionId (entry :: rest) db .halted db'

section Refinement

variable {orgId : OrgId} {sessionId : SessionId} {entry : UndoEntry} {retries : ℕ}
  {out : Except SagaError Unit}

theorem ends_postLoop_round {out : Option String} :
    Ends (M := system S) t (postLoop S.compensations endpoint entry retries) w (.ok out) w' ↔
      ∃ response, (classify S.compensations response = .succeeded ∧ out = none ∧ w' = w) ∨
        (∃ reason, classify S.compensations response = .permanent reason ∧ out = some reason ∧
          w' = w) ∨ ∃ reason, classify S.compensations response = .retryable reason ∧
          ((retries = 0 ∧ out = some reason ∧ w' = w) ∨ ∃ n, retries = n + 1 ∧
            Ends (M := system S) t (postLoop S.compensations endpoint entry n) w (.ok out) w') := by
  rw [postLoop]
  refine ends_bind_ok.trans (exists_congr fun response => ?_)
  refine (exists_congr fun w₁ => and_congr_left' ends_post).trans (exists_eq_left.trans ?_)
  cases classify S.compensations response with
  | succeeded | permanent => exact ends_ok.trans (by simp)
  | retryable =>
    cases retries with
    | zero => exact ends_ok.trans (by simp)
    | succ => simp

theorem ends_postLoop {out : Option String} :
    Ends (M := system S) t (postLoop S.compensations endpoint entry retries) w (.ok out) w' ↔
      w' = w ∧ ∀ last ∈ out, GivesUp S.compensations last := by
  constructor
  · intro h
    induction retries using Nat.strong_induction_on with
    | _ retries ih =>
      obtain ⟨response, ⟨-, rfl, hw⟩ | ⟨reason, hclass, rfl, hw⟩ | ⟨reason, hclass, hend⟩⟩ :=
        ends_postLoop_round.mp h
      · exact ⟨hw, by rintro _ ⟨⟩⟩
      · exact ⟨hw, by rintro _ ⟨⟩; exact ⟨response, .inl hclass⟩⟩
      · rcases hend with ⟨-, rfl, hw⟩ | ⟨n, rfl, hrest⟩
        · exact ⟨hw, by rintro _ ⟨⟩; exact ⟨response, .inr hclass⟩⟩
        · exact ih n (Nat.lt_succ_self n) hrest
  · rintro ⟨rfl, hout⟩
    cases out with
    | none => exact ends_postLoop_round.mpr ⟨.status 200, .inl ⟨rfl, rfl, rfl⟩⟩
    | some last =>
      obtain ⟨response, hclass | hclass⟩ := hout last rfl
      · exact ends_postLoop_round.mpr ⟨response, .inr (.inl ⟨last, hclass, rfl, rfl⟩)⟩
      · -- the endpoint gives the same answer to every attempt
        induction retries with
        | zero =>
          exact ends_postLoop_round.mpr
            ⟨response, .inr (.inr ⟨last, hclass, .inl ⟨rfl, rfl, rfl⟩⟩)⟩
        | succ retries ih =>
          exact ends_postLoop_round.mpr
            ⟨response, .inr (.inr ⟨last, hclass, .inr ⟨retries, rfl, ih⟩⟩)⟩

theorem ends_failEntry {u : Unit} :
    Ends (M := system S) t (failEntry orgId entry reason) w (.ok u) w' ↔ ∃ db₁ db₂,
      markCompensationFailed orgId entry.undoId reason w.db = .ok ((), db₁) ∧
      markEffectCompensationFailed orgId entry.effectId db₁ = .ok ((), db₂) ∧
      w' = { w with db := db₂ } := by
  constructor
  · intro h
    obtain ⟨_, w₁, hentry, heffect⟩ := ends_bind_ok.mp h
    obtain ⟨o₁, db₁, -, htx₁, rfl⟩ := ends_query.mp hentry
    obtain ⟨o₂, db₂, -, htx₂, rfl⟩ := ends_query.mp heffect
    exact ⟨db₁, db₂, htx₁, htx₂, rfl⟩
  · rintro ⟨db₁, db₂, htx₁, htx₂, rfl⟩
    exact ends_bind_ok.mpr ⟨(), { w with db := db₁ }, ends_query.mpr ⟨{}, db₁, rfl, htx₁, rfl⟩,
      ends_query.mpr ⟨{}, db₂, rfl, htx₂, rfl⟩⟩

theorem ends_reportFailure {e : SagaError} :
    Ends (M := system S) t (do failEntry orgId entry reason; pure (.error e)) w (.ok out) w' ↔
      out = .error e ∧ ∃ db₁ db₂,
        markCompensationFailed orgId entry.undoId reason w.db = .ok ((), db₁) ∧
        markEffectCompensationFailed orgId entry.effectId db₁ = .ok ((), db₂) ∧
        w' = { w with db := db₂ } := by
  constructor
  · intro h
    obtain ⟨u, w₁, hfail, hrest⟩ := ends_bind_ok.mp h
    obtain ⟨rfl, rfl⟩ := ends_ok.mp hrest
    exact ⟨rfl, ends_failEntry.mp hfail⟩
  · rintro ⟨rfl, h⟩
    exact ends_bind_ok.mpr ⟨(), w', ends_failEntry.mpr h, .done _ _⟩

/-- The error that reports a failed entry. -/
def entryError (registry : CompensationRegistry) (entry : UndoEntry) (reason : String) :
    SagaError :=
  match registry.endpointFor entry.compensation.fnName with
  | none => .missingCompensationEndpoint entry.compensation.fnName
  | some _ => .compensationFailed entry.undoId reason

theorem entryError_haltReason (h : FailsWith registry entry reason) :
    (entryError registry entry reason).haltReason = some reason := by
  unfold FailsWith at h
  unfold entryError
  split at h
  · rw [h]
    rfl
  · rfl

theorem ends_executeEntry :
    Ends (M := system S) t (executeEntry S.compensations orgId entry) w (.ok out) w' ↔
      (out = .ok () ∧ w' = w ∧
        (S.compensations.endpointFor entry.compensation.fnName).isSome = true) ∨
      ∃ reason db₁ db₂, out = .error (entryError S.compensations entry reason) ∧
        FailsWith S.compensations entry reason ∧
        markCompensationFailed orgId entry.undoId reason w.db = .ok ((), db₁) ∧
        markEffectCompensationFailed orgId entry.effectId db₁ = .ok ((), db₂) ∧
        w' = { w with db := db₂ } := by
  unfold executeEntry FailsWith entryError
  cases hendpoint : S.compensations.endpointFor entry.compensation.fnName with
  | none =>
    constructor
    · intro h
      obtain ⟨rfl, db₁, db₂, hrest⟩ := ends_reportFailure.mp h
      exact .inr ⟨_, db₁, db₂, rfl, rfl, hrest⟩
    · rintro (⟨-, -, hsome⟩ | ⟨reason, db₁, db₂, rfl, rfl, hrest⟩)
      · cases hsome
      · exact ends_reportFailure.mpr ⟨rfl, db₁, db₂, hrest⟩
  | some endpoint =>
    constructor
    · intro h
      obtain ⟨failure, w₁, hloop, hrest⟩ := ends_bind_ok.mp h
      obtain ⟨rfl, hlast⟩ := ends_postLoop.mp hloop
      cases failure with
      | none =>
        obtain ⟨hout, hw⟩ := ends_ok.mp hrest
        exact .inl ⟨hout, hw, rfl⟩
      | some last =>
        obtain ⟨rfl, db₁, db₂, hfail⟩ := ends_reportFailure.mp hrest
        exact .inr ⟨_, db₁, db₂, rfl, ⟨last, hlast last rfl, rfl⟩, hfail⟩
    · rintro (⟨rfl, rfl, -⟩ | ⟨reason, db₁, db₂, rfl, ⟨last, hlast, rfl⟩, hrest⟩)
      · exact ends_bind_ok.mpr ⟨none, w', ends_postLoop.mpr ⟨rfl, by rintro _ ⟨⟩⟩, .done _ _⟩
      · refine ends_bind_ok.mpr ⟨some last, w, ends_postLoop.mpr ⟨rfl, ?_⟩,
          ends_reportFailure.mpr ⟨rfl, db₁, db₂, hrest⟩⟩
        rintro _ ⟨⟩
        exact hlast

theorem ends_compensateEntries {entries : List UndoEntry} :
    Ends (M := system S) t (compensateEntries S.compensations orgId sessionId entries) w
        (.ok (.ok state)) w' ↔ ∃ db', Walks S.compensations orgId sessionId entries w.db state db' ∧
        w' = { w with db := db' } := by
  induction entries generalizing w with
  | nil =>
    constructor
    · intro h
      obtain ⟨u, w₁, hsession, hrest⟩ := ends_bind_ok.mp h
      obtain ⟨o, db', -, htx, rfl⟩ := ends_query.mp hsession
      obtain ⟨hstate, rfl⟩ := ends_done.mp hrest
      cases hstate
      exact ⟨db', .compensated htx, rfl⟩
    · rintro ⟨db', hwalks, rfl⟩
      cases hwalks with
      | compensated htx =>
        exact ends_bind_ok.mpr ⟨(), _, ends_query.mpr ⟨{}, db', rfl, htx, rfl⟩, .done _ _⟩
  | cons entry rest ih =>
    unfold compensateEntries
    cases hterminal : entry.state.isTerminal with
    | true =>
      constructor
      · intro h
        obtain ⟨db', hwalks, hw⟩ := ih.mp h
        exact ⟨db', .skipped hterminal hwalks, hw⟩
      · rintro ⟨db', hwalks, hw⟩
        cases hwalks with
        | skipped _ hrest => exact ih.mpr ⟨db', hrest, hw⟩
        | undone hopen | halted hopen => rw [hterminal] at hopen; cases hopen
    | false =>
      constructor
      · intro h
        obtain ⟨out, w₁, hexecute, hrest⟩ := ends_bind_ok.mp h
        rcases ends_executeEntry.mp hexecute with
          ⟨rfl, rfl, hendpoint⟩ | ⟨reason, db₁, db₂, rfl, hfails, hentry, heffect, rfl⟩
        · obtain ⟨u, w₂, hmark, hrest⟩ := ends_bind_ok.mp hrest
          obtain ⟨o, db₁, -, htx, rfl⟩ := ends_query.mp hmark
          obtain ⟨db', hwalks, hw⟩ := ih.mp hrest
          exact ⟨db', .undone hterminal hendpoint htx hwalks, hw⟩
        · simp only [entryError_haltReason hfails] at hrest
          obtain ⟨u, w₂, hsession, hrest⟩ := ends_bind_ok.mp hrest
          obtain ⟨o, db', -, htx, rfl⟩ := ends_query.mp hsession
          obtain ⟨hstate, rfl⟩ := ends_done.mp hrest
          cases hstate
          exact ⟨db', .halted hterminal hfails hentry heffect htx, rfl⟩
      · rintro ⟨db', hwalks, rfl⟩
        cases hwalks with
        | skipped hclosed => rw [hterminal] at hclosed; cases hclosed
        | undone _ hendpoint hentry hrest =>
          refine ends_bind_ok.mpr
            ⟨.ok (), w, ends_executeEntry.mpr (.inl ⟨rfl, rfl, hendpoint⟩), ?_⟩
          exact ends_bind_ok.mpr ⟨(), _, ends_query.mpr ⟨{}, _, rfl, hentry, rfl⟩,
            ih.mpr ⟨db', hrest, rfl⟩⟩
        | @halted _ _ _ db₁ db₂ _ reason _ hfails hentry heffect hsession =>
          refine ends_bind_ok.mpr ⟨.error (entryError S.compensations entry reason),
            { w with db := db₂ }, ends_executeEntry.mpr
              (.inr ⟨reason, db₁, db₂, rfl, hfails, hentry, heffect, rfl⟩), ?_⟩
          simp only [entryError_haltReason hfails]
          exact ends_bind_ok.mpr ⟨(), _, ends_query.mpr ⟨{}, db', rfl, hsession, rfl⟩, .done _ _⟩

/-- The outcomes of `compensate_session`: it reports a finished session, or it walks over
the pending entries. -/
theorem ends_compensateSession :
    Ends (M := system S) t (compensateSession S.compensations orgId sessionId) w
        (.ok (.ok state)) w' ↔
      ∃ session, w.db.sessions.find? (ofSession orgId sessionId) = some session ∧
        ((session.state.isTerminal = true ∧ state = session.state ∧ w' = w) ∨
          session.state.isTerminal = false ∧ ∃ db', Walks S.compensations orgId sessionId
            ((pendingStack orgId sessionId w.db).map mapUndoRow) w.db state db' ∧
            w' = { w with db := db' }) := by
  constructor
  · intro h
    obtain ⟨found, w₁, hread, hrest⟩ := ends_bind_ok.mp h
    obtain ⟨o, db₁, -, htx, rfl⟩ := ends_query.mp hread
    obtain ⟨rfl, rfl⟩ := getSession_ok.mp htx
    cases hfind : w.db.sessions.find? (ofSession orgId sessionId) with
    | none =>
      rw [hfind] at hrest
      cases (ends_done.mp hrest).1
    | some session =>
      rw [hfind] at hrest
      refine ⟨session, rfl, ?_⟩
      cases hterminal : session.state.isTerminal with
      | true =>
        simp only [hterminal] at hrest
        obtain ⟨hstate, hw⟩ := ends_done.mp hrest
        cases hstate
        exact .inl ⟨rfl, rfl, hw⟩
      | false =>
        simp only [hterminal] at hrest
        obtain ⟨entries, w₂, hload, hwalk⟩ := ends_bind_ok.mp hrest
        obtain ⟨o', db₂, -, htx', rfl⟩ := ends_query.mp hload
        obtain ⟨rfl, rfl⟩ := loadUndoStack_ok.mp htx'
        exact .inr ⟨rfl, ends_compensateEntries.mp hwalk⟩
  · rintro ⟨session, hfind, h⟩
    refine ends_bind_ok.mpr ⟨some session, w, ends_query.mpr ⟨{}, w.db, rfl, ?_, rfl⟩, ?_⟩
    · exact getSession_ok.mpr ⟨hfind.symm, rfl⟩
    · rcases h with ⟨hterminal, rfl, rfl⟩ | ⟨hterminal, hwalks⟩
      · simp only [hterminal]
        exact .done _ _
      · simp only [hterminal]
        exact ends_bind_ok.mpr ⟨_, w, ends_query.mpr ⟨{}, w.db, rfl,
          loadUndoStack_ok.mpr ⟨rfl, rfl⟩, rfl⟩, ends_compensateEntries.mpr hwalks⟩

end Refinement

/-! ## What a walk leaves behind -/

section Effect

variable {registry : CompensationRegistry} {orgId : OrgId} {sessionId : SessionId}
  {entries : List UndoEntry} {db db' : Db}

/-- The rows of the entries that a walk does not pass over. -/
def ofEntries (orgId : OrgId) (entries : List UndoEntry) (u : UndoRow) : Bool :=
  entries.any fun e => !e.state.isTerminal && ofUndo orgId e.undoId u

/-- An undo entry that was marked. -/
def UndoRow.marked (now : Time) (u : UndoRow) : UndoRow :=
  { u with state := .compensated, compensatedAt := some now }

/-- The database after the entries of a walk are marked. -/
def Db.markEntries (orgId : OrgId) (entries : List UndoEntry) (db : Db) : Db :=
  { db with undo := updateWhere (ofEntries orgId entries) (UndoRow.marked db.now) db.undo }

/-- The endpoints of the entries that a walk does not pass over are known. -/
def EndpointsKnown (registry : CompensationRegistry) (entries : List UndoEntry) : Prop :=
  ∀ e ∈ entries, e.state.isTerminal = false →
    (registry.endpointFor e.compensation.fnName).isSome = true

theorem endpointsKnown_cons : EndpointsKnown registry (entry :: entries) ↔
    (entry.state.isTerminal = false →
      (registry.endpointFor entry.compensation.fnName).isSome = true) ∧
    EndpointsKnown registry entries :=
  List.forall_mem_cons

theorem markEntries_nil : db.markEntries orgId [] = db := by
  have hnone : ∀ u ∈ db.undo, ofEntries orgId [] u = false := fun _ _ => rfl
  rw [Db.markEntries, updateWhere_of_forall_not hnone]

theorem markEntries_skip (h : entry.state.isTerminal = true) :
    db.markEntries orgId (entry :: entries) = db.markEntries orgId entries := by
  have hsame : ofEntries orgId (entry :: entries) = ofEntries orgId entries := by
    funext u
    simp [ofEntries, h]
  rw [Db.markEntries, hsame]
  rfl

theorem markEntries_cons {db₁ : Db} (h : entry.state.isTerminal = false)
    (hmark : markCompensated orgId entry.undoId db = .ok ((), db₁)) :
    db₁.markEntries orgId entries = db.markEntries orgId (entry :: entries) := by
  cases hmark
  have hsame : (fun u => ofUndo orgId entry.undoId u || ofEntries orgId entries u) =
      ofEntries orgId (entry :: entries) := by
    funext u
    simp [ofEntries, h]
  have hundo : updateWhere (ofEntries orgId entries) (UndoRow.marked db.now)
        (updateWhere (ofUndo orgId entry.undoId) (UndoRow.marked db.now) db.undo) =
      updateWhere (ofEntries orgId (entry :: entries)) (UndoRow.marked db.now) db.undo := by
    rw [updateWhere_updateWhere, hsame]
    · exact fun _ => rfl
    · exact fun _ => rfl
  exact congrArg (fun undo => { db with undo }) hundo

/-- A walk that reports a compensated session has marked all its entries. -/
theorem walks_compensated_iff : Walks registry orgId sessionId entries db .compensated db' ↔
      EndpointsKnown registry entries ∧
        setCompensated orgId sessionId (db.markEntries orgId entries) = .ok ((), db') := by
  induction entries generalizing db with
  | nil =>
    rw [markEntries_nil]
    constructor
    · intro h
      cases h with
      | compensated hsession => exact ⟨by rintro _ ⟨⟩, hsession⟩
    · rintro ⟨-, hsession⟩
      exact .compensated hsession
  | cons entry rest ih =>
    constructor
    · intro h
      cases h with
      | skipped hterminal hrest =>
        obtain ⟨hknown, hsession⟩ := ih.mp hrest
        rw [markEntries_skip hterminal, endpointsKnown_cons, hterminal]
        exact ⟨⟨by rintro ⟨⟩, hknown⟩, hsession⟩
      | undone hopen hendpoint hmark hrest =>
        obtain ⟨hknown, hsession⟩ := ih.mp hrest
        rw [markEntries_cons hopen hmark] at hsession
        exact ⟨endpointsKnown_cons.mpr ⟨fun _ => hendpoint, hknown⟩, hsession⟩
    · rintro ⟨hknown, hsession⟩
      obtain ⟨hentry, hrest⟩ := endpointsKnown_cons.mp hknown
      cases hterminal : entry.state.isTerminal with
      | true =>
        rw [markEntries_skip hterminal] at hsession
        exact .skipped hterminal (ih.mpr ⟨hrest, hsession⟩)
      | false =>
        refine .undone hterminal (hentry hterminal) rfl (ih.mpr ⟨hrest, ?_⟩)
        rw [markEntries_cons hterminal rfl]
        exact hsession

/-- A walk that reports a halted session has marked the entries above the one that
failed. -/
theorem walks_halted_iff : Walks registry orgId sessionId entries db .halted db' ↔
      ∃ higher entry lower reason db₁ db₂, entries = higher ++ entry :: lower ∧
        EndpointsKnown registry higher ∧ entry.state.isTerminal = false ∧
        FailsWith registry entry reason ∧
        markCompensationFailed orgId entry.undoId reason (db.markEntries orgId higher) =
          .ok ((), db₁) ∧ markEffectCompensationFailed orgId entry.effectId db₁ = .ok ((), db₂) ∧
        setHalted orgId sessionId reason db₂ = .ok ((), db') := by
  constructor
  · intro h
    generalize hstate : SessionState.halted = state at h
    induction h with
    | compensated => cases hstate
    | @skipped entry rest db db' state hterminal hrest ih =>
      obtain ⟨higher, e, lower, reason, db₁, db₂, rfl, hknown, hfailed⟩ := ih hstate
      refine ⟨entry :: higher, e, lower, reason, db₁, db₂, rfl, ?_, ?_⟩
      · rw [endpointsKnown_cons, hterminal]
        exact ⟨by rintro ⟨⟩, hknown⟩
      · rw [markEntries_skip hterminal]
        exact hfailed
    | @undone entry rest db db₀ db' state hopen hendpoint hmark hrest ih =>
      obtain ⟨higher, e, lower, reason, db₁, db₂, rfl, hknown, hfailed⟩ := ih hstate
      refine ⟨entry :: higher, e, lower, reason, db₁, db₂, rfl,
        endpointsKnown_cons.mpr ⟨fun _ => hendpoint, hknown⟩, ?_⟩
      rw [← markEntries_cons hopen hmark]
      exact hfailed
    | @halted entry rest db db₁ db₂ db' reason hopen hfails hentry heffect hsession =>
      refine ⟨[], entry, rest, reason, db₁, db₂, rfl, by rintro _ ⟨⟩, hopen, hfails, ?_, heffect,
        hsession⟩
      rw [markEntries_nil]
      exact hentry
  · rintro ⟨higher, entry, lower, reason, db₁, db₂, rfl, hknown, hopen, hfails, hentry, heffect,
      hsession⟩
    induction higher generalizing db with
    | nil =>
      rw [markEntries_nil] at hentry
      exact .halted hopen hfails hentry heffect hsession
    | cons e higher ih =>
      obtain ⟨hfirst, hrest⟩ := endpointsKnown_cons.mp hknown
      cases hterminal : e.state.isTerminal with
      | true =>
        rw [markEntries_skip hterminal] at hentry
        exact .skipped hterminal (ih hrest hentry)
      | false =>
        rw [← markEntries_cons hterminal rfl] at hentry
        exact .undone hterminal (hfirst hterminal) rfl (ih hrest hentry)

theorem Walks.state_cases (h : Walks registry orgId sessionId entries db state db') :
    state = .compensated ∨ state = .halted := by
  induction h with
  | compensated => exact .inl rfl
  | skipped _ _ ih | undone _ _ _ _ ih => exact ih
  | halted => exact .inr rfl

end Effect

end UndoLog
