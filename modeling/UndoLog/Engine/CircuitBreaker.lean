import UndoLog.Concurrent.Machine
import UndoLog.Types.Domain

/-!
# The circuit breaker and the concurrency limiter of the engine

Every `intercept` asks the breaker, takes a permit of the limiter, does its work and tells the
breaker how that has ended. The error counter is an atomic number beside the lock, so the
accesses of different calls interleave in any order. A call whose future is dropped gives its
permit back and tells the breaker nothing.
-/

namespace UndoLog.RateLimit

open Concurrent Machine

/-! ## The breaker -/

/-- The parameters of `CircuitBreaker::new` and `ConcurrencyLimiter::new`. -/
structure Limits where
  errorThreshold : UInt32
  cooldown : ℕ
  maxConcurrency : ℕ

/-- `CircuitState` -/
inductive CircuitState where
  | closed
  | open
  | halfOpen
deriving DecidableEq

/-- `Inner` -/
structure Inner where
  state : CircuitState
  openedAt : Option ℕ

/-- `check`: whether the request is allowed. -/
def Inner.check (L : Limits) (now : ℕ) (b : Inner) : Bool × Inner :=
  match b.state with
  | .closed => (true, b)
  | .open =>
    match b.openedAt with
    | some opened =>
      if now - opened ≥ L.cooldown then (true, { b with state := .halfOpen }) else (false, b)
    | none => (false, b)
  | .halfOpen => (true, b)

/-- The locked section of `record_success`. -/
def Inner.recordSuccess (b : Inner) : Inner :=
  if b.state = .halfOpen then { state := .closed, openedAt := none } else b

/-- The locked section of `record_failure`, with the number of errors counted before it. -/
def Inner.recordFailure (L : Limits) (now : ℕ) (current : UInt32) (b : Inner) : Inner :=
  match b.state with
  | .halfOpen => { state := .open, openedAt := some now }
  | .closed => if current ≥ L.errorThreshold then { state := .open, openedAt := some now } else b
  | .open => b

/-! ## Sections -/

/-- The steps of `intercept`. -/
inductive Section where
  | check
  | tryAcquire
  | interceptInner
  /-- `consecutive_errors.store(0)` -/
  | resetErrors
  /-- `consecutive_errors.fetch_add(1)` -/
  | countError
  | recordSuccess
  | recordFailure (current : UInt32)
  /-- The permit is dropped. -/
  | dropPermit

/-- What each step returns. -/
abbrev Section.Ret : Section → Type
  | .interceptInner => Except UndoLogError InterceptOutcome
  | .countError => UInt32
  | .check | .tryAcquire | .resetErrors | .recordSuccess | .recordFailure _ | .dropPermit => Unit

/-- What the breaker has been asked and told. -/
inductive Note where
  /-- `check` has let a call pass, in a state. -/
  | passed (t : ℕ) (state : CircuitState)
  /-- The outcome of a call was recorded. -/
  | recorded (t : ℕ)

/-- The state that the calls share. No step reads `log`, which keeps account of what the breaker has
been asked and told, the newest first. -/
structure Shared where
  consecutiveErrors : UInt32
  inner : Inner
  /-- The calls that hold a permit. -/
  permits : List ℕ
  clock : ℕ
  log : List Note

/-- One step of a call. -/
def exec (L : Limits) (t : ℕ) (work : Except UndoLogError InterceptOutcome) (s : Shared) :
    (st : Section) → Except UndoLogError st.Ret × Shared
  | .check =>
    if (s.inner.check L s.clock).1 then
      (.ok (), { s with
        inner := (s.inner.check L s.clock).2
        log := .passed t s.inner.state :: s.log })
    else (.error .circuitBreakerOpen, s)
  | .tryAcquire =>
    if s.permits.length < L.maxConcurrency then (.ok (), { s with permits := t :: s.permits })
    else (.error (.concurrencyLimitReached L.maxConcurrency), s)
  | .interceptInner => (.ok work, s)
  | .resetErrors => (.ok (), { s with consecutiveErrors := 0 })
  | .countError =>
    (.ok s.consecutiveErrors, { s with consecutiveErrors := s.consecutiveErrors + 1 })
  | .recordSuccess =>
    (.ok (), { s with inner := s.inner.recordSuccess, log := .recorded t :: s.log })
  | .recordFailure current =>
    (.ok (), { s with
      inner := s.inner.recordFailure L s.clock current
      log := .recorded t :: s.log })
  | .dropPermit => (.ok (), { s with permits := s.permits.erase t })

/-! ## Calls -/

/-- A part of `intercept`. -/
abbrev Caller (α : Type) : Type := Program Section Section.Ret UndoLogError α

/-- Run one step. -/
def sect (st : Section) : Caller st.Ret := Program.stmt st

/-- `record_success` -/
def recordSuccess : Caller Unit := do
  let _ ← sect .resetErrors
  sect .recordSuccess

/-- `record_failure` -/
def recordFailure : Caller Unit := do
  let prev ← sect .countError
  sect (.recordFailure (prev + 1))

/-- `intercept`, around `intercept_inner`. -/
def intercept : Caller (Except UndoLogError InterceptOutcome) := do
  let _ ← sect .check
  let _ ← sect .tryAcquire
  let result ← sect .interceptInner
  match result with
  | .ok _ => recordSuccess
  | .error _ => recordFailure
  let _ ← sect .dropPermit
  pure result

/-! ## The machine -/

/-- The limits as a machine. Its surroundings let time pass, and a dropped call gives its permit
back. -/
def limiter (L : Limits) : Machine where
  Stmt := Section
  Ret := Section.Ret
  Err := UndoLogError
  Op := Unit
  Result := Except UndoLogError InterceptOutcome
  Env := ℕ
  Oracle := Except UndoLogError InterceptOutcome
  Store := Shared
  exec := fun t work st s => some (exec L t work s st)
  program := fun _ => intercept
  abort := fun t s => { s with permits := s.permits.erase t }
  environment := fun d s => some { s with clock := s.clock + d }

/-- A configuration of the limits. -/
abbrev Moment (L : Limits) : Type := Machine.Config (limiter L)

/-- `CircuitBreaker::new` and `ConcurrencyLimiter::new`, at any time. -/
def Fresh (s : Shared) : Prop :=
  s.consecutiveErrors = 0 ∧ s.inner = { state := .closed, openedAt := none } ∧ s.permits = [] ∧
    s.log = []

/-- Reached by the calls of clients from new limits. -/
abbrev Arises (L : Limits) (guard : Guard (limiter L)) (c : Moment L) : Prop :=
  Machine.Reachable (M := limiter L) Fresh guard c

end UndoLog.RateLimit
