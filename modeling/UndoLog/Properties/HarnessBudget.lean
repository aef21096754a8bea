import UndoLog.Properties.RollbackPass
import UndoLog.Sdk.Harness

/-!
# What the harness says about the engine

The harness gives an entry as many attempts as its retries say. The engine sends one request
more. So the two agree exactly if every entry succeeds within the attempts of the harness.
-/

namespace UndoLog.Harness

variable {σ ν : Type} {registry : CompensationRegistry} {responses : Responses}
  {orgId : OrgId} {sessionId : SessionId} {db db' : Db} {p : PassEnd} {requests : ℕ}

/-- An undo entry that corresponds to a descriptor: its endpoint is unavailable when the function
raises, and succeeds when it returns. -/
structure Mirrors (registry : CompensationRegistry) (responses : Responses)
    (e : EffectDescriptor σ ν) (u : UndoRow) : Prop where
  position : u.stackPosition = e.stackPosition
  retries : (u.maxRetries : ℤ) = e.maxRetries
  small : u.maxRetries < 256
  endpoint : (registry.endpointFor u.compensationFn).isSome = true
  succeeds : ∀ i, e.compensation i = none →
    outcomes registry responses (mapUndoRow u) i = .succeeded
  retried : ∀ i, e.compensation i ≠ none →
    (outcomes registry responses (mapUndoRow u) i).settles = false

/-- The attempts at a position. -/
def SagaReport.attemptsAt (report : SagaReport σ ν) (position : ℕ) : ℕ :=
  ((report.steps.find? (·.stackPosition = position)).map (·.attempts)).getD 0

/-- A report says what a pass over the corresponding entries does. -/
structure Predicts (toolOf : UndoId → Option String)
    (pairs : List (EffectDescriptor σ ν × UndoRow)) (report : SagaReport σ ν) (p : PassEnd) :
    Prop where
  compensated : report.sessionResult = "compensated" ↔ p.state = .compensated
  halted : report.sessionResult = "halted" ↔ p.state = .halted
  attempts : ∀ x ∈ pairs, report.attemptsAt x.1.stackPosition =
    p.posts.countP (fun post => post.undoId = x.2.undoId)
  order : report.compensationOrder.map some = p.marks.map toolOf

/-! ## One entry -/

variable {e : EffectDescriptor σ ν} {u : UndoRow}

section

variable (hdefault : registry.defaultRetryConfig = .default)
include hdefault

/-- With the default retries an entry has as many as the harness makes attempts. -/
theorem Mirrors.budget (h : Mirrors registry responses e u) :
    (maxRetries registry (mapUndoRow u)).toNat = e.budget := by
  have hretries := h.retries
  have hown : (UInt8.ofNat u.maxRetries).toNat = u.maxRetries := by
    rw [UInt8.toNat_ofNat']
    exact Nat.mod_eq_of_lt h.small
  unfold maxRetries EffectDescriptor.budget
  rw [hdefault]
  change (if UInt8.ofNat u.maxRetries = 0 then 3 else (UInt8.ofNat u.maxRetries).toUInt32).toNat = _
  by_cases hzero : u.maxRetries = 0
  · rw [hzero] at hretries ⊢
    rw [if_neg (show ¬ 0 < e.maxRetries by omega)]
    rfl
  · have hne : UInt8.ofNat u.maxRetries ≠ 0 := by
      intro heq
      rw [heq] at hown
      exact hzero hown.symm
    rw [if_neg hne, if_pos (by omega), UInt8.toNat_toUInt32, hown]
    omega

/-- The request loop of an entry sends as many requests as the harness makes attempts if the entry
succeeds, and else one more. -/
theorem Mirrors.requestLoop (h : Mirrors registry responses e u) {n : ℕ} {out : Option String}
    (hloop : requestLoop (maxRetries registry (mapUndoRow u))
      (outcomes registry responses (mapUndoRow u)) requests 0 = some (n, out)) :
    (e.Succeeds → out = none ∧ ∃ error, attemptLoop e.compensation e.budget 0 none =
      (n, error, true)) ∧ (¬ e.Succeeds → n = e.budget + 1) := by
  obtain ⟨last, rfl, hout, -, -, hstop, hbefore⟩ := requestLoop_iff.mp hloop
  have hsmall := maxRetries_le registry (mapUndoRow u)
  have hthree : registry.defaultRetryConfig.maxRetries.toNat = 3 := by rw [hdefault]; rfl
  have hgo : ∀ {i : ℕ}, i ≤ e.budget →
      (GoesOn (maxRetries registry (mapUndoRow u)) (outcomes registry responses (mapUndoRow u)) i ↔
      e.compensation i ≠ none ∧ i < e.budget) := by
    intro i hi
    have hlimit : e.budget < (i + 1) % 2 ^ 32 ↔ ¬ i < e.budget := by
      rw [h.budget hdefault] at hsmall
      rw [Nat.mod_eq_of_lt (by omega)]
      omega
    unfold GoesOn
    rw [lt_counter_iff, h.budget hdefault, hlimit, not_not]
    refine and_congr_left fun _ => ⟨fun hsettles hnone => ?_, h.retried i⟩
    rw [h.succeeds i hnone] at hsettles
    cases hsettles
  have hle : last ≤ e.budget := by
    by_contra hlt
    exact absurd ((hgo (le_refl _)).mp (hbefore _ (Nat.zero_le _) (by omega))).2 (lt_irrefl _)
  rw [hgo hle] at hstop
  constructor
  · intro hsucceeds
    obtain ⟨first, error, heq, hlt, hfirst, hraised⟩ := hsucceeds.attempts
    have hsame : last = first := by
      rcases Nat.lt_trichotomy last first with hless | hsame | hmore
      · exact absurd ⟨hraised last hless, by omega⟩ hstop
      · exact hsame
      · exact absurd hfirst ((hgo (by omega)).mp (hbefore first (Nat.zero_le _) hmore)).1
    rw [hout, hsame, h.succeeds first hfirst]
    exact ⟨rfl, error, heq⟩
  · intro hfails
    by_contra hne
    exact hstop ⟨fun hnone => hfails ⟨last, by omega, hnone⟩, by omega⟩

end

/-! ## The whole stack -/

variable {pairs : List (EffectDescriptor σ ν × UndoRow)}

section

variable (hmirrors : ∀ x ∈ pairs, Mirrors registry responses x.1 x.2)
  (hopen : ∀ x ∈ pairs, x.2.state.isTerminal = false)
include hmirrors hopen

theorem mem_posts (hpass : passOver registry responses orgId sessionId requests
      (pairs.map fun x => mapUndoRow x.2) db = .ok (some p, db')) :
    ∀ post ∈ p.posts, ∃ x ∈ pairs, x.2.undoId = post.undoId := by
  induction pairs generalizing db p with
  | nil =>
    cases hpass
    rintro _ ⟨⟩
  | cons x rest ih =>
    obtain ⟨n, out, -, hfailed, hundone⟩ :=
      passOver_cons_ok (hopen x List.mem_cons_self) (hmirrors x List.mem_cons_self).endpoint hpass
    have hown : ∀ post ∈ requestsTo registry (mapUndoRow x.2) n, x.2.undoId = post.undoId := by
      intro post hpost
      obtain ⟨endpoint, hendpoint⟩ :=
        Option.isSome_iff_exists.mp (hmirrors x List.mem_cons_self).endpoint
      have hsome : registry.endpointFor (mapUndoRow x.2).compensation.fnName = some endpoint :=
        hendpoint
      simp only [requestsTo, hsome] at hpost
      rw [List.eq_of_mem_replicate hpost]
      rfl
    intro post hpost
    cases out with
    | some last =>
      rw [hfailed (by simp)] at hpost
      exact ⟨x, List.mem_cons_self, hown post hpost⟩
    | none =>
      obtain ⟨db₁, p₁, hrest, rfl⟩ := hundone rfl
      rcases List.mem_append.mp hpost with hpost | hpost
      · exact ⟨x, List.mem_cons_self, hown post hpost⟩
      · obtain ⟨y, hy, hid⟩ := ih (fun y hy => hmirrors y (List.mem_cons_of_mem _ hy))
          (fun y hy => hopen y (List.mem_cons_of_mem _ hy)) hrest post hpost
        exact ⟨y, List.mem_cons_of_mem _ hy, hid⟩

theorem predicts_iff [DecidableEq σ] {str : String → σ} {tool : UndoId → Option String}
    (hdefault : registry.defaultRetryConfig = .default)
    (hids : (pairs.map (·.2.undoId)).Nodup) (hpositions : (pairs.map (·.1.stackPosition)).Nodup)
    (htool : ∀ x ∈ pairs, tool x.2.undoId = some x.1.toolName)
    (hpass : passOver registry responses orgId sessionId requests
      (pairs.map fun x => mapUndoRow x.2) db = .ok (some p, db')) :
    Predicts tool pairs (reportOf str (pairs.map (·.1))) p ↔ ∀ x ∈ pairs, x.1.Succeeds := by
  induction pairs generalizing db p with
  | nil =>
    cases hpass
    refine ⟨by rintro - _ ⟨⟩, fun _ => ⟨?_, ?_, by rintro _ ⟨⟩, rfl⟩⟩
    · simp [reportOf, rollbackLoop]
    · simp [reportOf, rollbackLoop]
  | cons x rest ih =>
    have hmirror := hmirrors x List.mem_cons_self
    obtain ⟨n, out, hloop, -, hundone⟩ :=
      passOver_cons_ok (hopen x List.mem_cons_self) hmirror.endpoint hpass
    obtain ⟨hgood, hbad⟩ := hmirror.requestLoop hdefault hloop
    rw [List.forall_mem_cons]
    by_cases hsucceeds : x.1.Succeeds
    · obtain ⟨rfl, error, hattempts⟩ := hgood hsucceeds
      obtain ⟨db₁, p₁, hrest, rfl⟩ := hundone rfl
      obtain ⟨hnewId, hids⟩ := List.nodup_cons.mp hids
      obtain ⟨hnewPosition, hpositions⟩ := List.nodup_cons.mp hpositions
      have hmirrors' : ∀ y ∈ rest, Mirrors registry responses y.1 y.2 :=
        fun y hy => hmirrors y (List.mem_cons_of_mem _ hy)
      have hopen' : ∀ y ∈ rest, y.2.state.isTerminal = false :=
        fun y hy => hopen y (List.mem_cons_of_mem _ hy)
      rw [and_iff_right hsucceeds, ← ih hmirrors' hopen' hids hpositions
        (fun y hy => htool y (List.mem_cons_of_mem _ hy)) hrest]
      -- the entry adds its step and its requests, which are not those of another entry
      have hown : (requestsTo registry (mapUndoRow x.2) n ++ p₁.posts).countP
          (fun post => post.undoId = x.2.undoId) = n := by
        have hothers : p₁.posts.countP (fun post => post.undoId = x.2.undoId) = 0 := by
          rw [List.countP_eq_zero]
          intro post hpost
          obtain ⟨y, hy, hid⟩ := mem_posts hmirrors' hopen' hrest post hpost
          simp only [decide_eq_true_eq]
          exact fun heq => hnewId (List.mem_map.mpr ⟨y, hy, hid.trans heq⟩)
        rw [List.countP_append, hothers, Nat.add_zero]
        exact countP_requestsTo_self
          (show (registry.endpointFor (mapUndoRow x.2).compensation.fnName).isSome
          = true from hmirror.endpoint)
      have hreport := reportOf_cons str hattempts (rest.map (·.1))
      have hcounts : (∀ y ∈ x :: rest,
          (reportOf str (x.1 :: rest.map (·.1))).attemptsAt y.1.stackPosition =
            (requestsTo registry (mapUndoRow x.2) n ++ p₁.posts).countP
              (fun post => post.undoId = y.2.undoId)) ↔
          ∀ y ∈ rest, (reportOf str (rest.map (·.1))).attemptsAt y.1.stackPosition =
            p₁.posts.countP (fun post => post.undoId = y.2.undoId) := by
        rw [List.forall_mem_cons, hown, hreport]
        refine (and_iff_right (by simp [SagaReport.attemptsAt, EffectDescriptor.step])).trans ?_
        refine forall₂_congr fun y hy => ?_
        have hposition : x.1.stackPosition ≠ y.1.stackPosition :=
          fun heq => hnewPosition (List.mem_map.mpr ⟨y, hy, heq.symm⟩)
        have hid : (mapUndoRow x.2).undoId ≠ (mapUndoRow y.2).undoId :=
          fun heq => hnewId (List.mem_map.mpr ⟨y, hy, heq.symm⟩)
        have hnone : (requestsTo registry (mapUndoRow x.2) n).countP
            (fun post => post.undoId = y.2.undoId) = 0 := countP_requestsTo_of_ne hid
        rw [List.countP_append, hnone, Nat.zero_add]
        simp [SagaReport.attemptsAt, EffectDescriptor.step, hposition]
      have horder : (reportOf str (x.1 :: rest.map (·.1))).compensationOrder.map some =
          ((mapUndoRow x.2).undoId :: p₁.marks).map tool ↔
          (reportOf str (rest.map (·.1))).compensationOrder.map some = p₁.marks.map tool := by
        rw [hreport]
        simp [show tool (mapUndoRow x.2).undoId = _ from htool x List.mem_cons_self]
      have hresult : ∀ {result : String},
          (reportOf str (x.1 :: rest.map (·.1))).sessionResult = result ↔
            (reportOf str (rest.map (·.1))).sessionResult = result := by
        intro result
        rw [hreport]
      constructor
      · intro h
        exact ⟨hresult.symm.trans h.compensated, hresult.symm.trans h.halted,
          hcounts.mp h.attempts, horder.mp h.order⟩
      · intro h
        exact ⟨hresult.trans h.compensated, hresult.trans h.halted, hcounts.mpr h.attempts,
          horder.mpr h.order⟩
    · refine iff_of_false (fun h => ?_) fun h => hsucceeds h.1
      obtain ⟨n', out', hloop', hle⟩ :=
        requestsTo_prefix (hopen x List.mem_cons_self) hmirror.endpoint hpass
      cases requestLoop_unique hloop hloop'
      obtain ⟨error, hattempts⟩ := attempts_of_not_succeeds hsucceeds
      have hharness : (reportOf str (x.1 :: rest.map (·.1))).attemptsAt x.1.stackPosition =
          x.1.budget := by
        simp [reportOf, rollbackLoop, hattempts, EffectDescriptor.step, SagaReport.attemptsAt]
      have hsame := hharness.symm.trans (h.attempts x List.mem_cons_self)
      have hmore := hbad hsucceeds
      change n ≤ p.posts.countP (fun post => post.undoId = x.2.undoId) at hle
      omega

end

/-- The tool whose compensation an undo entry is. -/
def toolOf (pairs : List (EffectDescriptor σ ν × UndoRow)) (undoId : UndoId) : Option String :=
  (pairs.find? (·.2.undoId = undoId)).map (·.1.toolName)

theorem descending_eq {effects : List (EffectDescriptor σ ν)}
    (hperm : effects.Perm (pairs.map (·.1))) (hstack : OpenStack orgId sessionId db)
    (hpending : pairs.map (·.2) = pendingStack orgId sessionId db)
    (hmirrors : ∀ x ∈ pairs, Mirrors registry responses x.1 x.2) :
    descending effects = pairs.map (·.1) ∧ (pairs.map (·.1.stackPosition)).Nodup := by
  have hnodup : (pairs.map (·.1.stackPosition)).Nodup := by
    have hkeyed := hstack.positions
    rw [← hpending, Relational.Keyed, List.map_map] at hkeyed
    refine List.pairwise_map.mpr ((List.pairwise_map.mp hkeyed).imp_of_mem ?_)
    intro x y hx hy hne heq
    apply hne
    change x.2.stackPosition = y.2.stackPosition
    rw [(hmirrors x hx).position, (hmirrors y hy).position, heq]
  refine ⟨?_, hnodup⟩
  have hsorted : (pairs.map (·.1)).Pairwise fun a b => b.stackPosition ≤ a.stackPosition := by
    have hdown : (pendingStack orgId sessionId db).Pairwise fun u v =>
        v.stackPosition ≤ u.stackPosition := List.pairwise_insertionSort _ _
    rw [← hpending] at hdown
    refine List.pairwise_map.mpr ((List.pairwise_map.mp hdown).imp_of_mem ?_)
    intro x y hx hy hle
    rw [(hmirrors x hx).position, (hmirrors y hy).position] at hle
    exact_mod_cast hle
  refine List.Perm.eq_of_pairwise ?_ (List.pairwise_insertionSort _ _) hsorted
    ((List.perm_insertionSort _ _).trans hperm)
  intro a b ha hb hle hle'
  have ha' := (hperm.mem_iff.mp ((List.perm_insertionSort _ _).mem_iff.mp ha))
  have hinj : ((pairs.map (·.1)).map (·.stackPosition)).Nodup := by
    rw [List.map_map]
    exact hnodup
  exact List.inj_on_of_nodup_map hinj ha' hb (le_antisymm hle' hle)

/-- The harness reports what `compensate_session` does with the default retries exactly if every
entry succeeds within the attempts that the harness gives it. -/
theorem harness_predicts_iff [DecidableEq σ] (str : String → σ) (registry : CompensationRegistry)
    (hdefault : registry.defaultRetryConfig = .default) (responses : Responses) {orgId : OrgId}
    {sessionId : SessionId} {db : Db}
    (hstack : OpenStack orgId sessionId db) {pairs : List (EffectDescriptor σ ν × UndoRow)}
    (hpending : pairs.map (·.2) = pendingStack orgId sessionId db)
    (hmirrors : ∀ x ∈ pairs, Mirrors registry responses x.1 x.2) (harness : SagaTestHarness σ ν)
    (heffects : harness.effects.Perm (pairs.map (·.1))) :
    (∃ requests p db', compensationPass registry responses orgId sessionId requests db =
        .ok (some (.ok p), db') ∧ Predicts (toolOf pairs) pairs (harness.rollback str) p) ↔
    ∀ e ∈ harness.effects, e.Succeeds := by
  obtain ⟨session, hfind, hopen⟩ := hstack.session
  obtain ⟨horder, hpositions⟩ := descending_eq heffects hstack hpending hmirrors
  have hids : (pairs.map (·.2.undoId)).Nodup := by
    have hdistinct : (((pendingStack orgId sessionId db).map mapUndoRow).map _).Nodup :=
      loaded_distinct hstack.keys
    rw [← hpending, List.map_map, List.map_map] at hdistinct
    exact hdistinct
  have hentries : (pendingStack orgId sessionId db).map mapUndoRow =
      pairs.map fun x => mapUndoRow x.2 := by
    rw [← hpending, List.map_map]
    rfl
  have hpendingState : ∀ x ∈ pairs, x.2.state.isTerminal = false := by
    intro x hx
    have hload : mapUndoRow x.2 ∈ (pendingStack orgId sessionId db).map mapUndoRow := by
      rw [hentries]
      exact List.mem_map_of_mem hx
    exact pendingStack_open hload
  have htool : ∀ x ∈ pairs, toolOf pairs x.2.undoId = some x.1.toolName := by
    intro x hx
    obtain ⟨y, hy⟩ : ∃ y, pairs.find? (·.2.undoId = x.2.undoId) = some y :=
      Option.isSome_iff_exists.mp (List.find?_isSome.mpr ⟨x, hx, by simp⟩)
    have hsame : y = x := List.inj_on_of_nodup_map hids (List.mem_of_find?_eq_some hy) hx
      (by simpa using List.find?_some hy)
    rw [toolOf, hy, hsame]
    rfl
  have hall : (∀ e ∈ harness.effects, e.Succeeds) ↔ ∀ x ∈ pairs, x.1.Succeeds := by
    simp only [heffects.mem_iff, List.forall_mem_map]
  have hiff : ∀ {requests : ℕ} {p : PassEnd} {db' : Db},
      compensationPass registry responses orgId sessionId requests db =
        .ok (some (.ok p), db') → (Predicts (toolOf pairs) pairs (harness.rollback str) p ↔
        ∀ e ∈ harness.effects, e.Succeeds) := by
    intro requests p db' hpass
    rw [compensationPass_ok hfind hopen, hentries] at hpass
    rw [hall, SagaTestHarness.rollback, horder]
    exact predicts_iff hmirrors hpendingState hdefault hids hpositions htool hpass
  constructor
  · rintro ⟨requests, p, db', hpass, hpredicts⟩
    exact (hiff hpass).mp hpredicts
  · intro hsucceeds
    have hcalm : ∀ e, ¬ RunsAway registry responses e := by
      rintro e ⟨-, hmax, -⟩
      have hsmall := maxRetries_le registry e
      have hthree : registry.defaultRetryConfig.maxRetries.toNat = 3 := by rw [hdefault]; rfl
      omega
    obtain ⟨p, db', -, -, -, hpass, -⟩ := exists_descends orgId sessionId db
      (fun e he => pendingStack_open he) fun _ e _ _ _ => hcalm e
    have hpass' := (compensationPass_ok hfind hopen).mpr hpass
    exact ⟨_, p, db', hpass', (hiff hpass').mpr hsucceeds⟩

/-- An effect whose compensation fails some times before it succeeds. -/
def flaky (failures position : ℕ) : EffectDescriptor String Unit where
  toolName := "charge"
  compensation := fun i => if i < failures then some "unavailable" else none
  stackPosition := position
  distinct := by decide

/-- Endpoints that are unavailable as often. -/
def unavailable (failures : ℕ) : Responses := fun _ i => .status (if i < failures then 503 else 200)

theorem flaky_mirrors (failures position : ℕ) :
    Mirrors openRegistry (unavailable failures) (flaky failures position)
      (pendingRow position) := by
  refine ⟨rfl, rfl, (show 0 < 256 by decide), rfl, fun i h => ?_, fun i h => ?_⟩
  · have hi : ¬ i < failures := by simpa [flaky] using h
    simp [outcomes, unavailable, hi, classify]
  · have hi : i < failures := by simpa [flaky] using h
    simp [outcomes, unavailable, hi, classify, isPermanentClientError, Attempt.settles]

/-- Two failures are within the attempts of the harness. -/
theorem two_failures_predicted : OpenStack ⟨1⟩ ⟨2⟩ (failedSession [0, 1]) ∧
    ∃ requests p db', compensationPass openRegistry (unavailable 2) ⟨1⟩ ⟨2⟩ requests
        (failedSession [0, 1]) = .ok (some (.ok p), db') ∧
      Predicts (toolOf [(flaky 2 1, pendingRow 1), (flaky 2 0, pendingRow 0)])
        [(flaky 2 1, pendingRow 1), (flaky 2 0, pendingRow 0)]
        ((⟨[flaky 2 0, flaky 2 1], by simp, by decide⟩ : SagaTestHarness String Unit).rollback id)
        p := by
  refine ⟨failedSession_open, (harness_predicts_iff id openRegistry rfl (unavailable 2)
    failedSession_open rfl ?_ _ (List.Perm.swap _ _ _)).mpr ?_⟩
  · simp [flaky_mirrors]
  · have hsucceeds : ∀ position, (flaky 2 position).Succeeds :=
      fun _ => ⟨2, (show 2 < 3 by decide), rfl⟩
    simp [hsucceeds]

/-- After three failures the engine compensates the entry. The harness has given up by then. -/
theorem third_failure_not_predicted :
    (∃ p db', compensationPass openRegistry (unavailable 3) ⟨1⟩ ⟨2⟩ 4 (failedSession [0]) =
      .ok (some (.ok p), db') ∧ p.state = .compensated ∧ p.posts.length = 4) ∧
    ((⟨[flaky 3 0], by simp, by decide⟩ : SagaTestHarness String Unit).rollback id).sessionResult =
      "halted" :=
  ⟨⟨_, _, rfl, rfl, rfl⟩, rfl⟩

end UndoLog.Harness
