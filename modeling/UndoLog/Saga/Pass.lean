import Mathlib.Data.ENat.Lattice
import UndoLog.Saga.Walk

/-!
# One compensation pass, request by request

`execute_entry` sends requests for an entry until one settles it, and it counts them in a
`u32`. Here the endpoints answer by a script, and the request loop is followed for a given
number of requests, since nothing else bounds it. An entry takes one request more than its
retries at most, unless its retries are the largest `u32`: then only an answer ends the loop.
-/

namespace UndoLog

open Relational

/-- A request as an endpoint sees it. -/
structure Post where
  endpoint : String
  undoId : UndoId
  args : Json

/-- What the endpoints answer to the requests for each entry, in order. -/
abbrev Responses : Type := UndoId → ℕ → HttpResponse

/-- How the requests for an entry end. -/
def outcomes (registry : CompensationRegistry) (responses : Responses) (entry : UndoEntry)
    (i : ℕ) : Attempt :=
  classify registry (responses entry.undoId i)

/-- The request loop of `execute_entry` after a number of requests: how many it has sent in the end,
and the last reason unless one succeeded. The counter wraps around. -/
def requestLoop (maxRetries : UInt32) (ends : ℕ → Attempt) :
    (requests : ℕ) → (sent : ℕ) → Option (ℕ × Option String)
  | 0, _ => none
  | requests + 1, sent =>
    let attempt := UInt32.ofNat sent + 1
    match ends sent with
    | .succeeded => some (sent + 1, none)
    | .permanent reason => some (sent + 1, some reason)
    | .retryable reason =>
      if maxRetries < attempt then some (sent + 1, some reason)
      else requestLoop maxRetries ends requests (sent + 1)

/-- The end of a pass: the state it returns, the requests it sent and the entries it marked. -/
structure PassEnd where
  state : SessionState
  posts : List Post
  marks : List UndoId

section Pass

variable (registry : CompensationRegistry) (responses : Responses)
  (orgId : OrgId) (sessionId : SessionId)

/-- The failure arms of `execute_entry` and `compensate_session`. -/
def haltAt (entry : UndoEntry) (reason : String) (posts : List Post) : Tx (Option PassEnd) := do
  markCompensationFailed orgId entry.undoId reason
  markEffectCompensationFailed orgId entry.effectId
  setHalted orgId sessionId reason
  pure (some ⟨.halted, posts, []⟩)

/-- The requests for an entry. -/
def requestsTo (entry : UndoEntry) (n : ℕ) : List Post :=
  match registry.endpointFor entry.compensation.fnName with
  | none => []
  | some endpoint => List.replicate n ⟨endpoint, entry.undoId, entry.compensation.args⟩

/-- The walk of `compensate_session` over the loaded entries. There is no end if the request loop
of an entry goes on after the given number of requests. -/
def passOver (requests : ℕ) : List UndoEntry → Tx (Option PassEnd)
  | [] => do
    setCompensated orgId sessionId
    pure (some ⟨.compensated, [], []⟩)
  | entry :: rest =>
    if entry.state.isTerminal then passOver requests rest
    else
      match registry.endpointFor entry.compensation.fnName with
      | none => haltAt orgId sessionId entry
          ("missing compensation endpoint for key " ++ entry.compensation.fnName) []
      | some _ =>
        match requestLoop (maxRetries registry entry)
            (outcomes registry responses entry) requests 0 with
        | none => pure none
        | some (n, some last) => haltAt orgId sessionId entry
            (if last = "" then "compensation retries exhausted" else last)
            (requestsTo registry entry n)
        | some (n, none) => do
          markCompensated orgId entry.undoId
          let below ← passOver requests rest
          pure (below.map fun p =>
            ⟨p.state, requestsTo registry entry n ++ p.posts, entry.undoId :: p.marks⟩)

/-- `compensate_session`. -/
def compensationPass (requests : ℕ) : Tx (Option (Except SagaError PassEnd)) := do
  let found ← getSession orgId sessionId
  match found with
  | none => pure (some (.error (.sessionNotFound sessionId)))
  | some session =>
    if session.state.isTerminal then pure (some (.ok ⟨session.state, [], []⟩))
    else do
      let entries ← loadUndoStack orgId sessionId
      let ended ← passOver registry responses orgId sessionId requests entries
      pure (ended.map .ok)

end Pass

/-- An entry names at most 255 retries of its own. -/
theorem maxRetries_le (registry : CompensationRegistry) (entry : UndoEntry) :
    (maxRetries registry entry).toNat ≤ max registry.defaultRetryConfig.maxRetries.toNat 255 := by
  unfold maxRetries retryPolicy
  by_cases hown : entry.compensation.maxRetries = 0
  · simp [hown]
  · have hsmall : entry.compensation.maxRetries.toNat < 256 := UInt8.toNat_lt _
    simp only [hown, if_false, UInt8.toNat_toUInt32]
    omega

/-! ## The budget of an entry -/

/-- The end of a request after which none follows, however many are left. -/
def Attempt.settles : Attempt → Bool
  | .retryable _ => false
  | _ => true

/-- The reason for a failed request. -/
def Attempt.reason : Attempt → Option String
  | .succeeded => none
  | .permanent reason | .retryable reason => some reason

/-- The number of the first request that settles an entry. It is infinite if none does. -/
noncomputable def firstSettled (ends : ℕ → Attempt) : ℕ∞ :=
  open Classical in
  if h : ∃ i, (ends i).settles = true then ((Nat.find h + 1 : ℕ) : ℕ∞) else ⊤

/-- The number of requests for an entry with a number of retries. -/
noncomputable def budgeted (ends : ℕ → Attempt) (retries : ℕ) : ℕ :=
  (min (firstSettled ends) (retries + 1)).toNat

section Budget

variable {ends : ℕ → Attempt} {retries : ℕ}

/-- The requests before the last one are tried again, and the last one settles the entry or
uses up the retries. -/
theorem budgeted_spec (ends : ℕ → Attempt) (retries : ℕ) :
    ∃ last, budgeted ends retries = last + 1 ∧ last ≤ retries ∧
      (∀ i < last, (ends i).settles = false) ∧ ((ends last).settles = true ∨ last = retries) := by
  classical
  unfold budgeted firstSettled
  by_cases h : ∃ i, (ends i).settles = true
  · rw [dif_pos h]
    by_cases hle : Nat.find h ≤ retries
    · refine ⟨Nat.find h, ?_, hle, ?_, .inl (Nat.find_spec h)⟩
      · rw [min_eq_left (by exact_mod_cast Nat.succ_le_succ hle)]
        rfl
      · intro i hi
        simpa using Nat.find_min h hi
    · refine ⟨retries, ?_, le_rfl, ?_, .inr rfl⟩
      · rw [min_eq_right (by exact_mod_cast Nat.succ_le_succ (Nat.le_of_not_le hle))]
        rfl
      · intro i hi
        have hfirst : i < Nat.find h := by omega
        simpa using Nat.find_min h hfirst
  · rw [dif_neg h]
    refine ⟨retries, ?_, le_rfl, ?_, .inr rfl⟩
    · rw [min_eq_right le_top]
      rfl
    · intro i hi
      by_contra hsettles
      exact h ⟨i, by simpa using hsettles⟩

end Budget

/-! ## The counter -/

section Counter

variable {maxRetries : UInt32} {ends : ℕ → Attempt} {requests sent n : ℕ} {out : Option String}

/-- The loop goes on after a request. -/
def GoesOn (maxRetries : UInt32) (ends : ℕ → Attempt) (i : ℕ) : Prop :=
  (ends i).settles = false ∧ ¬ maxRetries < UInt32.ofNat i + 1

theorem lt_counter_iff {i : ℕ} :
    maxRetries < UInt32.ofNat i + 1 ↔ maxRetries.toNat < (i + 1) % 2 ^ 32 := by
  rw [UInt32.lt_iff_toNat_lt, UInt32.toNat_add, UInt32.toNat_one, UInt32.toNat_ofNat']
  rw [Nat.mod_add_mod]

/-- The loop ends with the first request after which it does not go on. -/
theorem requestLoop_iff : requestLoop maxRetries ends requests sent = some (n, out) ↔
      ∃ last, n = last + 1 ∧ out = (ends last).reason ∧ sent ≤ last ∧ last < sent + requests ∧
        ¬ GoesOn maxRetries ends last ∧ ∀ i, sent ≤ i → i < last → GoesOn maxRetries ends i := by
  induction requests generalizing sent with
  | zero =>
    constructor
    · intro h
      cases h
    · rintro ⟨last, -, -, hle, hlt, -⟩
      omega
  | succ requests ih =>
    by_cases hgo : GoesOn maxRetries ends sent
    · have hnext : requestLoop maxRetries ends (requests + 1) sent =
          requestLoop maxRetries ends requests (sent + 1) := by
        obtain ⟨hsettles, hlimit⟩ := hgo
        rw [requestLoop]
        cases hend : ends sent with
        | succeeded | permanent => simp [hend, Attempt.settles] at hsettles
        | retryable reason => simp only [hlimit, if_false]
      rw [hnext, ih]
      constructor
      · rintro ⟨last, rfl, rfl, hle, hlt, hstop, hbefore⟩
        refine ⟨last, rfl, rfl, by omega, by omega, hstop, ?_⟩
        intro i hi hilast
        by_cases heq : i = sent
        · rw [heq]
          exact hgo
        · exact hbefore i (by omega) hilast
      · rintro ⟨last, rfl, rfl, hle, hlt, hstop, hbefore⟩
        have hne : last ≠ sent := by
          rintro rfl
          exact hstop hgo
        refine ⟨last, rfl, rfl, by omega, by omega, hstop, ?_⟩
        intro i hi hilast
        exact hbefore i (by omega) hilast
    · have hend : requestLoop maxRetries ends (requests + 1) sent =
          some (sent + 1, (ends sent).reason) := by
        rw [requestLoop]
        cases hend : ends sent with
        | succeeded | permanent => rfl
        | retryable reason =>
          have hlimit : maxRetries < UInt32.ofNat sent + 1 := by
            by_contra hlimit
            exact hgo ⟨by rw [hend]; rfl, hlimit⟩
          simp only [hlimit, if_true]
          rfl
      rw [hend]
      constructor
      · intro h
        cases h
        refine ⟨sent, rfl, rfl, le_rfl, by omega, hgo, ?_⟩
        intro i hi hilast
        omega
      · rintro ⟨last, rfl, rfl, hle, -, -, hbefore⟩
        have heq : last = sent := by
          by_contra hne
          exact hgo (hbefore sent le_rfl (by omega))
        rw [heq]

theorem requestLoop_unique {requests' : ℕ} {a b : ℕ × Option String}
    (ha : requestLoop maxRetries ends requests 0 = some a)
    (hb : requestLoop maxRetries ends requests' 0 = some b) : a = b := by
  obtain ⟨last, hn, hout, -, -, hstop, hbefore⟩ := (requestLoop_iff (n := a.1)).mp ha
  obtain ⟨last', hn', hout', -, -, hstop', hbefore'⟩ := (requestLoop_iff (n := b.1)).mp hb
  have heq : last = last' := by
    by_contra hne
    rcases Nat.lt_or_gt_of_ne hne with hlt | hlt
    · exact hstop (hbefore' last (Nat.zero_le _) hlt)
    · exact hstop' (hbefore last' (Nat.zero_le _) hlt)
  rw [← heq] at hn' hout'
  exact Prod.ext (hn.trans hn'.symm) (hout.trans hout'.symm)

/-- The limit is the largest number, and all the requests that the budget allows are to be
tried again. -/
def Runaway (maxRetries : UInt32) (ends : ℕ → Attempt) : Prop :=
  maxRetries.toNat + 1 = 2 ^ 32 ∧ ∀ i < 2 ^ 32, (ends i).settles = false

theorem requestLoop_of_calm (hcalm : ¬ Runaway maxRetries ends)
    (hrequests : maxRetries.toNat < requests) : ∃ last, budgeted ends maxRetries.toNat = last + 1 ∧
      requestLoop maxRetries ends requests 0 = some (last + 1, (ends last).reason) ∧
      ∀ i < last, (ends i).settles = false := by
  obtain ⟨last, hcount, hle, hbefore, hlast⟩ := budgeted_spec ends maxRetries.toNat
  have hbound : maxRetries.toNat < 2 ^ 32 := maxRetries.toNat_lt
  refine ⟨last, hcount, requestLoop_iff.mpr ⟨last, rfl, rfl, Nat.zero_le _, by omega, ?_, ?_⟩,
    hbefore⟩
  · rintro ⟨hsettles, hlimit⟩
    rcases hlast with hsettled | rfl
    · rw [hsettled] at hsettles
      cases hsettles
    · apply hcalm
      rw [lt_counter_iff] at hlimit
      have hmax : maxRetries.toNat + 1 = 2 ^ 32 := by
        by_contra hne
        rw [Nat.mod_eq_of_lt (by omega)] at hlimit
        omega
      refine ⟨hmax, ?_⟩
      intro i hi
      by_cases heq : i = maxRetries.toNat
      · rw [heq]
        exact hsettles
      · exact hbefore i (by omega)
  · intro i _ hi
    refine ⟨hbefore i hi, ?_⟩
    rw [lt_counter_iff, Nat.mod_eq_of_lt (by omega)]
    omega

theorem lt_requestLoop_of_runaway (hrunaway : Runaway maxRetries ends)
    (h : requestLoop maxRetries ends requests 0 = some (n, out)) :
    budgeted ends maxRetries.toNat < n := by
  obtain ⟨last, rfl, -, -, -, hstop, -⟩ := requestLoop_iff.mp h
  obtain ⟨hmax, hretried⟩ := hrunaway
  obtain ⟨least, hcount, hle, -⟩ := budgeted_spec ends maxRetries.toNat
  have hlate : 2 ^ 32 ≤ last := by
    by_contra hlt
    apply hstop
    refine ⟨hretried last (by omega), ?_⟩
    rw [lt_counter_iff]
    have hmod := Nat.mod_lt (last + 1) (show 0 < 2 ^ 32 by omega)
    omega
  omega

end Counter

variable {registry : CompensationRegistry} {responses : Responses} {requests : ℕ}

theorem givesUp_of_requestLoop {entry : UndoEntry} {maxRetries : UInt32} {n : ℕ} {last : String}
    (h : requestLoop maxRetries (outcomes registry responses entry) requests 0 =
      some (n, some last)) : GivesUp registry last := by
  obtain ⟨i, -, hout, -⟩ := requestLoop_iff.mp h
  refine ⟨responses entry.undoId i, ?_⟩
  change some last = (classify registry (responses entry.undoId i)).reason at hout
  cases hend : classify registry (responses entry.undoId i) <;> rw [hend] at hout <;> cases hout
  · exact .inl rfl
  · exact .inr rfl

/-- A pass that ends is a walk. -/
theorem walks_of_passOver {orgId : OrgId} {sessionId : SessionId}
    {entries : List UndoEntry} {db db' : Db} {p : PassEnd}
    (h : passOver registry responses orgId sessionId requests entries db =
      .ok (some p, db')) : Walks registry orgId sessionId entries db p.state db' := by
  induction entries generalizing db p with
  | nil =>
    cases h
    exact .compensated rfl
  | cons entry rest ih =>
    unfold passOver at h
    cases hterminal : entry.state.isTerminal with
    | true =>
      rw [if_pos hterminal] at h
      exact .skipped hterminal (ih h)
    | false =>
      rw [if_neg (by simp [hterminal])] at h
      cases hendpoint : registry.endpointFor entry.compensation.fnName with
      | none =>
        simp only [hendpoint] at h
        cases h
        exact .halted hterminal ((failsWith_of_none hendpoint).mpr rfl) rfl rfl rfl
      | some endpoint =>
        have hsome : (registry.endpointFor entry.compensation.fnName).isSome = true := by
          rw [hendpoint]
          rfl
        simp only [hendpoint] at h
        cases hloop : requestLoop (maxRetries registry entry)
            (outcomes registry responses entry) requests 0 with
        | none => simp only [hloop] at h; cases h
        | some r =>
          obtain ⟨n, out⟩ := r
          simp only [hloop] at h
          cases out with
          | some last =>
            cases h
            exact .halted hterminal
              ((failsWith_of_some hsome).mpr ⟨last, givesUp_of_requestLoop hloop, rfl⟩) rfl rfl rfl
          | none =>
            obtain ⟨_, db₁, hmark, h⟩ := Tx.bind_ok.mp h
            obtain ⟨below, db₂, hrest, h⟩ := Tx.bind_ok.mp h
            cases below with
            | none => cases h
            | some below =>
              cases h
              have hbelow := ih hrest
              exact .undone hterminal hsome hmark hbelow

/-- A registry that knows every endpoint. -/
def openRegistry : CompensationRegistry where
  endpointFor := some
  defaultRetryConfig := .default
  statusText := fun _ => ""

/-- A pending entry of a session, with the default retries. -/
def pendingRow (position : ℕ) : UndoRow where
  undoId := ⟨BitVec.ofNat 128 position⟩
  orgId := ⟨1⟩
  sessionId := ⟨2⟩
  effectId := ⟨BitVec.ofNat 128 (position + 100)⟩
  stackPosition := position
  compensationFn := "refund"
  compensationVersion := "1"
  compensationArgs := .null
  state := .pending
  retryCount := 0
  lastError := none
  registeredAt := 0
  compensatedAt := none
  maxRetries := 0
  retryBackoffMs := 0

/-- A failed session with pending entries at the given positions. -/
def failedSession (positions : List ℕ) : Db :=
  { Db.empty 0 [] [] with
    sessions := [{ newSession ⟨1⟩ ⟨2⟩ 0 with state := .failed }]
    undo := positions.map pendingRow }

/-- The first entry answers, and the others are unavailable. -/
def firstAnswers : Responses := fun undoId _ => .status (if undoId.uuid = 1 then 200 else 503)

/-- Of two entries the upper one is undone, and the pass is halted after four requests for the
lower one. -/
theorem passOver_halted_walks : ∃ (p : PassEnd) (db : Db),
    passOver openRegistry firstAnswers ⟨1⟩ ⟨2⟩ 4 ([1, 0].map (mapUndoRow ∘ pendingRow))
      (failedSession [0, 1]) = .ok (some p, db) ∧
    p.state = .halted ∧ p.marks = [⟨1⟩] ∧ p.posts.map (·.undoId.uuid) = [1, 0, 0, 0, 0] ∧
    Walks openRegistry ⟨1⟩ ⟨2⟩ ([1, 0].map (mapUndoRow ∘ pendingRow)) (failedSession [0, 1])
      p.state db := by
  have hpass : passOver openRegistry firstAnswers ⟨1⟩ ⟨2⟩ 4 ([1, 0].map (mapUndoRow ∘ pendingRow))
      (failedSession [0, 1]) = .ok (some _, _) := rfl
  exact ⟨_, _, hpass, rfl, rfl, rfl, walks_of_passOver hpass⟩

end UndoLog
