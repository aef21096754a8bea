import UndoLog.Saga.Pass

/-!
# What one rollback pass does

A pass takes the pending entries of a session from the highest stack position down. The first
entry without a success ends the pass and halts the session. This is what `compensate_session`
does, unless it reaches an entry whose request loop runs away.
-/

namespace UndoLog

open Relational

/-! ## The specification -/

section Specification

variable (registry : CompensationRegistry) (responses : Responses)

/-- The number of requests that an entry should take. -/
noncomputable def requestsFor (entry : UndoEntry) : ℕ :=
  match registry.endpointFor entry.compensation.fnName with
  | none => 0
  | some _ => budgeted (outcomes registry responses entry)
      (maxRetries registry entry).toNat

/-- One of the requests for an entry succeeds. -/
def Succeeds (entry : UndoEntry) : Prop :=
  ∃ i < requestsFor registry responses entry,
    outcomes registry responses entry i = .succeeded

/-- The database after a pass: the entries that were undone are marked. If an entry failed, it and
its effect are marked failed, and the session is halted. -/
def Db.rolledBack (orgId : OrgId) (sessionId : SessionId) (undone : List UndoEntry)
    (failed : Option (UndoEntry × String)) (db : Db) : Db :=
  match failed with
  | none =>
    { db.markEntries orgId undone with
      sessions := updateWhere (ofSessionIn orgId sessionId [.active, .failed, .compensating])
        (fun s => { s with state := .compensated }) db.sessions }
  | some (entry, reason) =>
    { db with
      undo := updateWhere (ofUndo orgId entry.undoId)
        (fun u => { u with state := .failed, lastError := some reason })
        (db.markEntries orgId undone).undo
      effects := updateWhere (ofEffect orgId entry.effectId)
        (fun row => { row with state := .compensationFailed }) db.effects
      sessions := updateWhere (ofSession orgId sessionId)
        (fun s => { s with state := .halted, failureReason := some reason }) db.sessions }

/-- What a pass makes of a stack: the entries it undoes, the first one without a success, and
those below. -/
structure Descends (orgId : OrgId) (sessionId : SessionId) (db : Db) (entries : List UndoEntry)
    (p : PassEnd) (db' : Db) (undone : List UndoEntry) (failed : Option (UndoEntry × String))
    (untouched : List UndoEntry) : Prop where
  stack : entries = undone ++ (failed.map (·.1)).toList ++ untouched
  undone_succeeds : ∀ e ∈ undone, Succeeds registry responses e
  failed_not_succeeds : ∀ f ∈ failed, ¬ Succeeds registry responses f.1
  untouched_of_none : failed = none → untouched = []
  posts : p.posts = (undone ++ (failed.map (·.1)).toList).flatMap fun e =>
    requestsTo registry e (requestsFor registry responses e)
  marks : p.marks = undone.map (·.undoId)
  state : p.state = if failed.isSome then .halted else .compensated
  database : db' = db.rolledBack orgId sessionId undone failed

/-- A rollback pass as it should be. -/
structure RolledBack (orgId : OrgId) (sessionId : SessionId) (db : Db) (p : PassEnd) (db' : Db) :
    Prop where
  descending : (pendingStack orgId sessionId db).Pairwise fun u v =>
    v.stackPosition < u.stackPosition
  compensated_iff : p.state = .compensated ↔
    ∀ u ∈ pendingStack orgId sessionId db, Succeeds registry responses (mapUndoRow u)
  descends : ∃ undone failed untouched, Descends registry responses orgId sessionId db
      ((pendingStack orgId sessionId db).map mapUndoRow) p db' undone failed untouched ∧
    ∀ u ∈ pendingStack orgId sessionId db, mapUndoRow u ∈ untouched → u ∈ db'.undo

end Specification

/-! ## One entry -/

variable {requests : ℕ} {rest : List UndoEntry}

section Entries

variable {registry : CompensationRegistry} {responses : Responses}
  {orgId : OrgId} {sessionId : SessionId} {db db' : Db} {entries : List UndoEntry}
  {entry : UndoEntry} {p : PassEnd}

/-- The request loop of an entry runs away. -/
def RunsAway (registry : CompensationRegistry) (responses : Responses) (entry : UndoEntry) : Prop :=
  (registry.endpointFor entry.compensation.fnName).isSome = true ∧
    Runaway (maxRetries registry entry) (outcomes registry responses entry)

theorem requestLoop_of_not_runsAway {endpoint : String}
    (hendpoint : registry.endpointFor entry.compensation.fnName = some endpoint)
    (hcalm : ¬ RunsAway registry responses entry) :
    ∃ out, requestLoop (maxRetries registry entry) (outcomes registry responses entry) (2 ^ 32) 0 =
        some (requestsFor registry responses entry, out) ∧
      (out = none ↔ Succeeds registry responses entry) := by
  have hcalm' : ¬ Runaway (maxRetries registry entry) (outcomes registry responses entry) := by
    intro h
    exact hcalm ⟨by rw [hendpoint]; rfl, h⟩
  obtain ⟨last, hcount, hloop, hbefore⟩ := requestLoop_of_calm hcalm'
    (maxRetries registry entry).toNat_lt
  have hfor : requestsFor registry responses entry = last + 1 := by
    unfold requestsFor
    rw [hendpoint]
    exact hcount
  refine ⟨_, by rw [hfor]; exact hloop, ?_⟩
  unfold Succeeds
  rw [hfor]
  constructor
  · intro hreason
    refine ⟨last, Nat.lt_succ_self last, ?_⟩
    cases hend : outcomes registry responses entry last with
    | succeeded => rfl
    | permanent | retryable => rw [hend] at hreason; cases hreason
  · rintro ⟨i, hi, hsucceeded⟩
    have hlast : i = last := by
      by_contra hne
      have hretried := hbefore i (by omega)
      rw [hsucceeded] at hretried
      cases hretried
    rw [← hlast, hsucceeded]
    rfl

theorem not_succeeds_of_runsAway (h : RunsAway registry responses entry) :
    ¬ Succeeds registry responses entry := by
  rintro ⟨i, hi, hsucceeded⟩
  obtain ⟨hsome, hmax, hretried⟩ := h
  obtain ⟨endpoint, hendpoint⟩ := Option.isSome_iff_exists.mp hsome
  obtain ⟨last, hcount, hle, -⟩ := budgeted_spec (outcomes registry responses entry)
    (maxRetries registry entry).toNat
  unfold requestsFor at hi
  rw [hendpoint] at hi
  change i < budgeted _ _ at hi
  have hsettles := hretried i (by omega)
  rw [hsucceeded] at hsettles
  cases hsettles

theorem not_succeeds_of_missing (h : registry.endpointFor entry.compensation.fnName = none) :
    ¬ Succeeds registry responses entry := by
  rintro ⟨i, hi, -⟩
  unfold requestsFor at hi
  rw [h] at hi
  exact Nat.not_lt_zero i hi

/-! ## The whole stack -/

variable {undone : List UndoEntry} {failed : Option (UndoEntry × String)}

theorem descends_haltAt {reason : String} {posts : List Post}
    (hfails : ¬ Succeeds registry responses entry)
    (hposts : posts = requestsTo registry entry (requestsFor registry responses entry)) :
    ∃ p db', haltAt orgId sessionId entry reason posts db = .ok (some p, db') ∧
      Descends registry responses orgId sessionId db (entry :: rest) p db' []
        (some (entry, reason)) rest := by
  refine ⟨_, _, rfl, rfl, by rintro _ ⟨⟩, ?_, by rintro ⟨⟩, ?_, rfl, rfl, ?_⟩
  · rintro _ ⟨⟩
    exact hfails
  · simp [hposts]
  · unfold Db.rolledBack
    rw [markEntries_nil]

/-- A pass that reaches no entry whose loop runs away descends the stack. -/
theorem exists_descends (orgId : OrgId) (sessionId : SessionId) (db : Db)
    (hopen : ∀ e ∈ entries, e.state.isTerminal = false)
    (hcalm : ∀ higher e lower, entries = higher ++ e :: lower →
      (∀ x ∈ higher, Succeeds registry responses x) →
      ¬ RunsAway registry responses e) : ∃ p db' undone failed untouched,
      passOver registry responses orgId sessionId (2 ^ 32) entries db = .ok (some p, db') ∧
      Descends registry responses orgId sessionId db entries p db' undone failed
        untouched := by
  induction entries generalizing db with
  | nil =>
    refine ⟨_, _, [], none, [], rfl, rfl, by rintro _ ⟨⟩, by rintro _ ⟨⟩, fun _ => rfl, rfl, rfl,
      rfl, ?_⟩
    unfold Db.rolledBack
    rw [markEntries_nil]
  | cons entry rest ih =>
    have hentry : entry.state.isTerminal = false := hopen entry List.mem_cons_self
    have hfirst : ¬ RunsAway registry responses entry :=
      hcalm [] entry rest rfl (by rintro _ ⟨⟩)
    unfold passOver
    rw [if_neg (by simp [hentry])]
    cases hendpoint : registry.endpointFor entry.compensation.fnName with
    | none =>
      obtain ⟨p, db', hhalt, hdescends⟩ := descends_haltAt
        (not_succeeds_of_missing hendpoint) (by rw [requestsTo, hendpoint])
      exact ⟨p, db', [], _, rest, hhalt, hdescends⟩
    | some endpoint =>
      obtain ⟨out, hloop, hout⟩ := requestLoop_of_not_runsAway hendpoint hfirst
      simp only [hloop]
      cases out with
      | some last =>
        have hfails : ¬ Succeeds registry responses entry := by
          rw [← hout]
          exact Option.some_ne_none last
        obtain ⟨p, db', hhalt, hdescends⟩ := descends_haltAt hfails rfl
        exact ⟨p, db', [], _, rest, hhalt, hdescends⟩
      | none =>
        have hsucceeds : Succeeds registry responses entry := hout.mp rfl
        obtain ⟨db₁, hmark⟩ : ∃ db₁, markCompensated orgId entry.undoId db = .ok ((), db₁) :=
          ⟨_, rfl⟩
        obtain ⟨p, db', undone, failed, untouched, hpass, h⟩ := ih db₁
          (fun e he => hopen e (List.mem_cons_of_mem _ he)) (fun higher e lower heq hhigher => by
            apply hcalm (entry :: higher) e lower (by rw [heq]; rfl)
            intro x hx
            rcases List.mem_cons.mp hx with rfl | hx
            · exact hsucceeds
            · exact hhigher x hx)
        refine ⟨⟨p.state, _ ++ p.posts, entry.undoId :: p.marks⟩, db', entry :: undone, failed,
          untouched, Tx.bind_ok.mpr ⟨(), db₁, hmark, Tx.bind_ok.mpr ⟨_, db', hpass, rfl⟩⟩, ?_⟩
        refine ⟨by rw [h.stack]; rfl, ?_, h.failed_not_succeeds, h.untouched_of_none, ?_, ?_,
          h.state, ?_⟩
        · intro e he
          rcases List.mem_cons.mp he with rfl | he
          · exact hsucceeds
          · exact h.undone_succeeds e he
        · simp [h.posts]
        · simp [h.marks]
        · rw [h.database]
          unfold Db.rolledBack
          rw [markEntries_cons hentry hmark]
          cases hmark
          rfl

theorem countP_requestsTo_of_ne {x : UndoEntry} {n : ℕ} (h : x.undoId ≠ entry.undoId) :
    (requestsTo registry x n).countP (fun post => post.undoId = entry.undoId) = 0 := by
  rw [List.countP_eq_zero]
  intro post hpost
  unfold requestsTo at hpost
  cases hendpoint : registry.endpointFor x.compensation.fnName with
  | none => rw [hendpoint] at hpost; cases hpost
  | some endpoint =>
    rw [hendpoint] at hpost
    rw [List.eq_of_mem_replicate hpost]
    simpa using h

theorem countP_requestsTo_self {n : ℕ}
    (h : (registry.endpointFor entry.compensation.fnName).isSome = true) :
    (requestsTo registry entry n).countP (fun post => post.undoId = entry.undoId) = n := by
  obtain ⟨endpoint, hendpoint⟩ := Option.isSome_iff_exists.mp h
  simp [requestsTo, hendpoint, List.countP_replicate]

theorem countP_requests_le {xs : List UndoEntry} {n : UndoEntry → ℕ}
    (hdistinct : (xs.map (·.undoId)).Nodup)
    (hsame : ∀ x ∈ xs, x.undoId = entry.undoId → x = entry) :
    (xs.flatMap fun x => requestsTo registry x (n x)).countP
      (fun post => post.undoId = entry.undoId) ≤ n entry := by
  induction xs with
  | nil => exact Nat.zero_le _
  | cons x xs ih =>
    obtain ⟨hnew, hdistinct⟩ := List.nodup_cons.mp hdistinct
    rw [List.flatMap_cons, List.countP_append]
    by_cases hx : x.undoId = entry.undoId
    · have hothers : (xs.flatMap fun x => requestsTo registry x (n x)).countP
          (fun post => post.undoId = entry.undoId) = 0 := by
        rw [List.countP_eq_zero]
        intro post hpost
        obtain ⟨y, hy, hpost⟩ := List.mem_flatMap.mp hpost
        have hne : y.undoId ≠ entry.undoId := by
          intro heq
          exact hnew (List.mem_map.mpr ⟨y, hy, heq.trans hx.symm⟩)
        exact List.countP_eq_zero.mp (countP_requestsTo_of_ne hne) post hpost
      have hlength : (requestsTo registry entry (n entry)).length ≤ n entry := by
        unfold requestsTo
        cases registry.endpointFor entry.compensation.fnName with
        | none => exact Nat.zero_le _
        | some endpoint => exact (List.length_replicate).le
      rw [hothers, hsame x List.mem_cons_self hx]
      exact (List.countP_le_length).trans hlength
    · rw [countP_requestsTo_of_ne hx, Nat.zero_add]
      exact ih hdistinct fun y hy => hsame y (List.mem_cons_of_mem _ hy)

section

variable (hopen : entry.state.isTerminal = false)
  (hendpoint : (registry.endpointFor entry.compensation.fnName).isSome = true)
  (h : passOver registry responses orgId sessionId requests (entry :: rest) db = .ok (some p, db'))
include hopen hendpoint h

/-- The parts of a pass that ends, from the request loop of the entry at the top. -/
theorem passOver_cons_ok : ∃ n out, requestLoop (maxRetries registry entry)
        (outcomes registry responses entry) requests 0 = some (n, out) ∧
      (out ≠ none → p.posts = requestsTo registry entry n) ∧ (out = none → ∃ db₁ p₁,
        passOver registry responses orgId sessionId requests rest db₁ = .ok (some p₁, db') ∧
        p = ⟨p₁.state, requestsTo registry entry n ++ p₁.posts, entry.undoId :: p₁.marks⟩) := by
  obtain ⟨endpoint, hendpoint⟩ := Option.isSome_iff_exists.mp hendpoint
  unfold passOver at h
  rw [if_neg (by simp [hopen])] at h
  simp only [hendpoint] at h
  cases hloop : requestLoop (maxRetries registry entry)
      (outcomes registry responses entry) requests 0 with
  | none => simp only [hloop] at h; cases h
  | some r =>
    obtain ⟨n, out⟩ := r
    simp only [hloop] at h
    refine ⟨n, out, rfl, ?_⟩
    cases out with
    | some last =>
      cases h
      exact ⟨fun _ => rfl, by rintro ⟨⟩⟩
    | none =>
      obtain ⟨_, db₁, -, h⟩ := Tx.bind_ok.mp h
      obtain ⟨p₁, db₂, hrest, h⟩ := Tx.bind_ok.mp h
      cases p₁ with
      | none => cases h
      | some p₁ =>
        cases h
        exact ⟨fun hne => absurd rfl hne, fun _ => ⟨db₁, p₁, hrest, rfl⟩⟩

theorem requestsTo_prefix : ∃ n out, requestLoop (maxRetries registry entry)
        (outcomes registry responses entry) requests 0 = some (n, out) ∧
      n ≤ p.posts.countP (fun post => post.undoId = entry.undoId) := by
  obtain ⟨n, out, hloop, hfailed, hundone⟩ := passOver_cons_ok hopen hendpoint h
  have hown := countP_requestsTo_self (n := n) hendpoint
  refine ⟨n, out, hloop, ?_⟩
  cases out with
  | some last => rw [hfailed (by simp), hown]
  | none =>
    obtain ⟨db₁, p₁, -, rfl⟩ := hundone rfl
    rw [List.countP_append, hown]
    omega

end

/-- A pass that comes to an entry whose loop runs away sends too many requests for it, if it
ends at all. -/
theorem requestsFor_lt_of_runsAway {higher lower : List UndoEntry}
    (hopen : ∀ e ∈ higher ++ entry :: lower, e.state.isTerminal = false)
    (hhigher : ∀ x ∈ higher, Succeeds registry responses x)
    (haway : RunsAway registry responses entry)
    (h : passOver registry responses orgId sessionId requests (higher ++ entry :: lower) db =
      .ok (some p, db')) : requestsFor registry responses entry <
      p.posts.countP (fun post => post.undoId = entry.undoId) := by
  induction higher generalizing db p with
  | nil =>
    obtain ⟨n, out, hloop, hle⟩ := requestsTo_prefix (hopen entry List.mem_cons_self) haway.1 h
    obtain ⟨endpoint, hendpoint⟩ := Option.isSome_iff_exists.mp haway.1
    have hlt := lt_requestLoop_of_runaway haway.2 hloop
    rw [requestsFor, hendpoint]
    change budgeted _ _ < _
    omega
  | cons x higher ih =>
    have hsucceeds : Succeeds registry responses x := hhigher x List.mem_cons_self
    cases hendpoint : registry.endpointFor x.compensation.fnName with
    | none => exact absurd hsucceeds (not_succeeds_of_missing hendpoint)
    | some endpoint =>
      obtain ⟨n, out, hloop, -, hbelow⟩ :=
        passOver_cons_ok (hopen x List.mem_cons_self) (by rw [hendpoint]; rfl) h
      obtain ⟨out', hloop', hout'⟩ := requestLoop_of_not_runsAway hendpoint
        fun haway => not_succeeds_of_runsAway haway hsucceeds
      cases requestLoop_unique hloop hloop'
      obtain ⟨db₁, p₁, hrest, rfl⟩ := hbelow (hout'.mpr hsucceeds)
      have hlt := ih (fun e he => hopen e (List.mem_cons_of_mem _ he))
        (fun y hy => hhigher y (List.mem_cons_of_mem _ hy)) hrest
      rw [List.countP_append]
      omega

theorem compensationPass_ok {session : SessionRecord}
    (hfind : db.sessions.find? (ofSession orgId sessionId) = some session)
    (hopen : session.state.isTerminal = false) :
    compensationPass registry responses orgId sessionId requests db =
        .ok (some (.ok p), db') ↔ passOver registry responses orgId sessionId requests
        ((pendingStack orgId sessionId db).map mapUndoRow) db = .ok (some p, db') := by
  unfold compensationPass
  rw [Tx.bind_ok]
  constructor
  · rintro ⟨found, db₁, hget, h⟩
    obtain ⟨rfl, rfl⟩ := getSession_ok.mp hget
    rw [hfind] at h
    simp only [hopen] at h
    obtain ⟨entries, db₂, hload, h⟩ := Tx.bind_ok.mp h
    obtain ⟨rfl, rfl⟩ := loadUndoStack_ok.mp hload
    obtain ⟨ended, db₃, hpass, h⟩ := Tx.bind_ok.mp h
    cases ended with
    | none => cases h
    | some p' =>
      cases h
      exact hpass
  · intro hpass
    refine ⟨some session, db, getSession_ok.mpr ⟨hfind.symm, rfl⟩, ?_⟩
    simp only [hopen]
    exact Tx.bind_ok.mpr ⟨_, db, loadUndoStack_ok.mpr ⟨rfl, rfl⟩,
      Tx.bind_ok.mpr ⟨some p, db', hpass, rfl⟩⟩

theorem Descends.untouched_row {untouched : List UndoEntry} {u : UndoRow}
    (h : Descends registry responses orgId sessionId db entries p db' undone failed untouched)
    (hdistinct : (entries.map (·.undoId)).Nodup) (hu : u ∈ db.undo)
    (hbelow : mapUndoRow u ∈ untouched) : u ∈ db'.undo := by
  have hother : ∀ e ∈ undone ++ (failed.map (·.1)).toList, ofUndo orgId e.undoId u = false := by
    intro e he
    rw [h.stack, List.map_append, List.nodup_append] at hdistinct
    have hne := hdistinct.2.2 _ (List.mem_map_of_mem he) _ (List.mem_map_of_mem hbelow)
    exact decide_eq_false fun hof => hne hof.1.symm
  have hmarked : u ∈ (db.markEntries orgId undone).undo := by
    refine mem_updateWhere.mpr ⟨u, hu, updateRow_of_neg ?_⟩
    rw [ofEntries, List.any_eq_false]
    intro e he
    simp [hother e (List.mem_append_left _ he)]
  rw [h.database]
  cases failed with
  | none => exact hmarked
  | some f => exact mem_updateWhere.mpr ⟨u, hmarked, updateRow_of_neg (hother f.1 (by simp))⟩

theorem loaded_distinct (hkeys : Keyed UndoRow.undoId db.undo) :
    (((pendingStack orgId sessionId db).map mapUndoRow).map (·.undoId)).Nodup := by
  rw [List.map_map]
  change ((pendingStack orgId sessionId db).map UndoRow.undoId).Nodup
  refine ((List.perm_insertionSort _ _).map UndoRow.undoId).nodup_iff.mpr ?_
  exact hkeys.sublist (List.filter_sublist.map _)

end Entries

/-! ## The specification holds unless a loop runs away -/

/-- An open session with a stack whose entries have different identifiers and positions. -/
structure OpenStack (orgId : OrgId) (sessionId : SessionId) (db : Db) : Prop where
  session : ∃ s, db.sessions.find? (ofSession orgId sessionId) = some s ∧ s.state.isTerminal = false
  keys : Keyed UndoRow.undoId db.undo
  positions : Keyed UndoRow.stackPosition (pendingStack orgId sessionId db)

/-- `compensate_session` ends as specified exactly if it reaches no entry whose request loop runs
away. -/
theorem rolledBack_iff_not_runsAway (registry : CompensationRegistry) (responses : Responses)
    {orgId : OrgId} {sessionId : SessionId} {db : Db} (h : OpenStack orgId sessionId db) :
    (∃ requests p db', compensationPass registry responses orgId sessionId requests db =
        .ok (some (.ok p), db') ∧ RolledBack registry responses orgId sessionId db p db') ↔
    ∀ higher e lower, (pendingStack orgId sessionId db).map mapUndoRow = higher ++ e :: lower →
      (∀ x ∈ higher, Succeeds registry responses x) →
      ¬ RunsAway registry responses e := by
  obtain ⟨session, hfind, hopen⟩ := h.session
  have hdistinct : (((pendingStack orgId sessionId db).map mapUndoRow).map (·.undoId)).Nodup :=
    loaded_distinct h.keys
  constructor
  · rintro ⟨requests, p, db', hpass, hspec⟩ higher e lower hstack hhigher haway
    obtain ⟨undone, failed, untouched, hdescends, -⟩ := hspec.descends
    rw [compensationPass_ok hfind hopen, hstack] at hpass
    have hmore := requestsFor_lt_of_runsAway
      (fun x hx => pendingStack_open (by rw [hstack]; exact hx)) hhigher haway hpass
    have htried : undone ++ (failed.map (·.1)).toList <+:
        (pendingStack orgId sessionId db).map mapUndoRow := ⟨untouched, hdescends.stack.symm⟩
    have he : e ∈ (pendingStack orgId sessionId db).map mapUndoRow := by
      rw [hstack]
      simp
    have hless : p.posts.countP (fun post => post.undoId = e.undoId) ≤
        requestsFor registry responses e := by
      rw [hdescends.posts]
      exact countP_requests_le (hdistinct.sublist (htried.sublist.map _)) fun x hx hid =>
        List.inj_on_of_nodup_map hdistinct (htried.subset hx) he hid
    omega
  · intro hcalm
    obtain ⟨p, db', undone, failed, untouched, hpass, hdescends⟩ :=
      exists_descends orgId sessionId db (fun e he => pendingStack_open he) hcalm
    refine ⟨2 ^ 32, p, db', (compensationPass_ok hfind hopen).mpr hpass, ?_, ?_, undone, failed,
      untouched, hdescends, ?_⟩
    · have hsorted : (pendingStack orgId sessionId db).Pairwise fun u v =>
          v.stackPosition ≤ u.stackPosition := List.pairwise_insertionSort _ _
      exact (hsorted.and (List.pairwise_map.mp h.positions)).imp fun ⟨hle, hne⟩ =>
        lt_of_le_of_ne hle (Ne.symm hne)
    · have hall : (∀ u ∈ pendingStack orgId sessionId db,
          Succeeds registry responses (mapUndoRow u)) ↔
          ∀ e ∈ (pendingStack orgId sessionId db).map mapUndoRow,
            Succeeds registry responses e := by simp
      rw [hall, hdescends.state, hdescends.stack]
      cases hfailed : failed with
      | none =>
        rw [hdescends.untouched_of_none hfailed]
        simpa using hdescends.undone_succeeds
      | some f =>
        constructor
        · intro hstate
          cases hstate
        · intro hsucceeds
          exact absurd (hsucceeds f.1 (by simp))
            (hdescends.failed_not_succeeds f (by rw [hfailed]; rfl))
    · intro u hu hbelow
      exact hdescends.untouched_row hdistinct (mem_pendingStack.mp hu).1 hbelow

theorem failedSession_open : OpenStack ⟨1⟩ ⟨2⟩ (failedSession [0, 1]) :=
  ⟨⟨_, rfl, rfl⟩, by unfold Keyed; decide, by unfold Keyed; decide⟩

/-- A pass over two entries. -/
theorem twoEntries_rolledBack : OpenStack ⟨1⟩ ⟨2⟩ (failedSession [0, 1]) ∧
    ∃ requests p db', compensationPass openRegistry (fun _ _ => .status 503) ⟨1⟩ ⟨2⟩
        requests (failedSession [0, 1]) = .ok (some (.ok p), db') ∧
      RolledBack openRegistry (fun _ _ => .status 503) ⟨1⟩ ⟨2⟩ (failedSession [0, 1]) p
        db' := by
  refine ⟨failedSession_open, (rolledBack_iff_not_runsAway _ _ failedSession_open).mpr ?_⟩
  rintro higher e lower - - ⟨-, hmax, -⟩
  have hle := maxRetries_le openRegistry e
  have hthree : openRegistry.defaultRetryConfig.maxRetries.toNat = 3 := rfl
  omega

/-- The same registry with the largest number of retries. -/
def patientRegistry : CompensationRegistry :=
  { openRegistry with defaultRetryConfig := { RetryConfig.default with maxRetries := 4294967295 } }

/-- With the largest default, an endpoint that is always unavailable keeps the pass from ending. -/
theorem rollback_never_ends : ¬∃ requests p db,
    compensationPass patientRegistry (fun _ _ => .status 503) ⟨1⟩ ⟨2⟩
      requests (failedSession [0]) = .ok (some p, db) := by
  rintro ⟨requests, p, db, hend⟩
  have hloop : requestLoop 4294967295
      (outcomes patientRegistry (fun _ _ => .status 503) (mapUndoRow (pendingRow 0))) requests 0 =
      none := by
    by_contra hsome
    obtain ⟨r, hr⟩ := Option.ne_none_iff_exists'.mp hsome
    obtain ⟨last, -, -, -, -, hstop, -⟩ := (requestLoop_iff (n := r.1)).mp hr
    apply hstop
    refine ⟨rfl, ?_⟩
    rw [lt_counter_iff]
    have hmod := Nat.mod_lt (last + 1) (show 0 < 2 ^ 32 by omega)
    have hmax : (4294967295 : UInt32).toNat = 4294967295 := rfl
    omega
  have hpass : passOver patientRegistry (fun _ _ => .status 503) ⟨1⟩ ⟨2⟩
      requests [mapUndoRow (pendingRow 0)] (failedSession [0]) = .ok (none, failedSession [0]) := by
    unfold passOver
    rw [if_neg (by decide)]
    have hendpoint : patientRegistry.endpointFor (mapUndoRow (pendingRow 0)).compensation.fnName =
        some _ := rfl
    have hretries : maxRetries patientRegistry (mapUndoRow (pendingRow 0)) = 4294967295 := rfl
    simp only [hendpoint, hretries, hloop]
    rfl
  cases hend.symm.trans (Tx.bind_ok.mpr ⟨some _, _, rfl, Tx.bind_ok.mpr ⟨_, _, rfl,
    Tx.bind_ok.mpr ⟨none, _, hpass, rfl⟩⟩⟩)

end UndoLog
