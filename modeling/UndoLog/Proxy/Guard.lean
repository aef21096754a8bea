import UndoLog.Concurrent.Tally
import UndoLog.Proxy.Client

/-!
# The backpressure guard of the proxy

Every engine RPC of the proxy passes a breaker, a bounded queue and a gate. Each has a lock of
its own: the locked sections are the statements here, and they interleave in any order. A
waiter blocks in a `select` until the channel it has fetched is closed, its context ends or its
timer fires.
-/

namespace UndoLog.Proxy.Guard

open Concurrent Machine

/-! ## Configuration -/

/-- `BackpressureConfig` -/
structure BackpressureConfig where
  maxInFlight : ℤ
  queueMax : ℤ
  queueWait : ℤ
  breakerThreshold : ℤ
  breakerReset : ℤ

variable (B : BackpressureConfig)

namespace BackpressureConfig

/-- `newGuard` builds a gate. -/
def hasGate : Bool := 0 < B.maxInFlight

/-- `newGuard` builds a queue. -/
def hasQueue : Bool := B.hasGate && 0 < B.queueMax && 0 < B.queueWait

/-- `newGuard` builds a breaker. -/
def hasBreaker : Bool := 0 < B.breakerThreshold && 0 < B.breakerReset

end BackpressureConfig

/-! ## The gate -/

/-- A channel, by the order in which they are made. -/
abbrev Channel : Type := ℕ

/-- `gate`, with the channels that were made and closed so far. -/
structure Gate where
  inFlight : ℤ
  freed : Channel
  made : ℕ
  closed : List Channel

/-- What the runtime panics with. -/
inductive Panic where
  | closeOfClosedChannel
deriving DecidableEq

/-- `newGate` -/
def newGate : Gate where
  inFlight := 0
  freed := 0
  made := 1
  closed := []

/-- `tryAcquire` -/
def Gate.tryAcquire (g : Gate) : Bool × Gate :=
  if g.inFlight ≥ B.maxInFlight then (false, g)
  else (true, { g with inFlight := g.inFlight + 1 })

/-- `release`. Closing a channel again would panic. -/
def Gate.release (g : Gate) : Except Panic Unit × Gate :=
  if g.freed ∈ g.closed then
    (.error .closeOfClosedChannel, { g with inFlight := g.inFlight - 1 })
  else
    (.ok (), { g with
      inFlight := g.inFlight - 1
      closed := g.freed :: g.closed
      freed := g.made
      made := g.made + 1 })

/-! ## The breaker -/

/-- `breakerState` -/
inductive BreakerState where
  | closed
  | halfOpen
  | open
deriving DecidableEq

/-- `breaker` -/
structure Breaker where
  failures : ℤ
  state : BreakerState
  openedAt : ℕ
  probing : Bool

/-- `newBreaker` -/
def newBreaker : Breaker where
  failures := 0
  state := .closed
  openedAt := 0
  probing := false

/-- `allow` -/
def Breaker.allow (now : ℕ) (b : Breaker) : Bool × Breaker :=
  match b.state with
  | .closed => (true, b)
  | .halfOpen => if !b.probing then (true, { b with probing := true }) else (false, b)
  | .open =>
    if (now : ℤ) - b.openedAt ≥ B.breakerReset then
      (true, { b with state := .halfOpen, probing := true })
    else (false, b)

/-- `record`. Only a lost connection is not healthy. -/
def Breaker.record (now : ℕ) (healthy : Bool) (b : Breaker) : Breaker :=
  match b.state with
  | .closed =>
    if healthy then { b with failures := 0 }
    else if b.failures + 1 ≥ B.breakerThreshold then
      { b with failures := b.failures + 1, state := .open, openedAt := now }
    else { b with failures := b.failures + 1 }
  | .halfOpen =>
    if healthy then { b with probing := false, state := .closed, failures := 0 }
    else { b with probing := false, state := .open, openedAt := now }
  | .open => b

/-- `releaseProbe` -/
def Breaker.releaseProbe (b : Breaker) : Breaker :=
  if b.state = .halfOpen && b.probing then { b with probing := false } else b

/-! ## Locked sections -/

/-- What a guarded call returns to its caller. -/
inductive RpcResult where
  /-- No error. -/
  | answered
  /-- An error. -/
  | failed (e : ClientError)
  /-- The call panics. The deferred release sees no error. -/
  | panicked

/-- `isConnectionLoss` -/
def isConnectionLoss (e : ClientError) : Bool :=
  match e.code with
  | .unavailable | .unknown => true
  | _ => false

/-- What `record` makes of the error of a call. -/
def RpcResult.healthy : RpcResult → Bool
  | .answered | .panicked => true
  | .failed e => !isConnectionLoss e

/-- Why a call is turned away. -/
inductive Rejection where
  | breakerOpen
  | gateFull
  | queueFull
  | waitExpired
  | contextDone
deriving DecidableEq

/-- What ends a `select`. -/
inductive Wake where
  | freed
  | timer
  | context
deriving DecidableEq

/-- What ends the `select` of a round that no release ends. -/
inductive Expiry where
  | timer
  | context
deriving DecidableEq

/-- The error of a wait that has ended. -/
def Expiry.rejection : Expiry → Rejection
  | .timer => .waitExpired
  | .context => .contextDone

/-- The steps of a guarded call: its locked sections, its waits and the RPC. -/
inductive Section where
  | allow
  | tryAcquire
  /-- The section of `admit` that takes a place in the queue. -/
  | joinQueue
  /-- `time.NewTimer`. The wait is finite, so a number of releases is drawn that it outlasts
  at most. -/
  | newTimer
  | waitForRelease
  /-- The `select` of a round that the wait may outlast. -/
  | select (justFreed : Channel)
  /-- The `select` of the last round, which the timer or the context ends. -/
  | selectLast (justFreed : Channel)
  /-- The deferred section of `admit`. -/
  | leaveQueue
  | releaseProbe
  | rpc
  | release
  | record (result : RpcResult)

/-- What each step returns. -/
abbrev Section.Ret : Section → Type
  | .allow | .tryAcquire | .joinQueue => Bool
  | .newTimer => ℕ
  | .waitForRelease => Channel
  | .select _ => Wake
  | .selectLast _ => Expiry
  | .rpc => RpcResult
  | .leaveQueue | .releaseProbe | .release | .record _ => Unit

/-- What a step reads from outside. -/
structure Circumstance where
  rounds : ℕ := 0
  wake : Wake := .freed
  expiry : Expiry := .timer
  rpc : RpcResult := .answered

/-- The state that the callers share. No section reads `admissions`, which keeps account of the
calls that `allow` has admitted and of the state then. -/
structure Shared where
  gate : Gate
  waiting : ℤ
  breaker : Breaker
  clock : ℕ
  admissions : List (ℕ × BreakerState)

/-- One step of a call. A `select` cannot run before one of its channels is ready. -/
def exec (t : ℕ) (o : Circumstance) (s : Shared) :
    (st : Section) → Option (Except Panic st.Ret × Shared)
  | .allow =>
    let (allowed, breaker) := s.breaker.allow B s.clock
    some (.ok allowed, { s with
      breaker
      admissions := if allowed then (t, s.breaker.state) :: s.admissions else s.admissions })
  | .tryAcquire => some (.ok (s.gate.tryAcquire B).1, { s with gate := (s.gate.tryAcquire B).2 })
  | .joinQueue =>
    if s.waiting ≥ B.queueMax then some (.ok false, s)
    else some (.ok true, { s with waiting := s.waiting + 1 })
  | .newTimer => some (.ok o.rounds, s)
  | .waitForRelease => some (.ok s.gate.freed, s)
  | .select justFreed =>
    match o.wake with
    | .freed => if justFreed ∈ s.gate.closed then some (.ok .freed, s) else none
    | w => some (.ok w, s)
  | .selectLast _ => some (.ok o.expiry, s)
  | .leaveQueue => some (.ok (), { s with waiting := s.waiting - 1 })
  | .releaseProbe => some (.ok (), { s with breaker := s.breaker.releaseProbe })
  | .rpc => some (.ok o.rpc, s)
  | .release => some (s.gate.release.1, { s with gate := s.gate.release.2 })
  | .record result =>
    some (.ok (), { s with breaker := s.breaker.record B s.clock result.healthy })

/-! ## Guarded calls -/

/-- A part of a guarded call. -/
abbrev Caller (α : Type) : Type := Program Section Section.Ret Panic α

/-- Run one step. -/
def sect (st : Section) : Caller st.Ret := Program.stmt st

/-- One round of the loop of `admit`. The release signal is fetched before the gate is
tried. -/
def admitRound (wait : Channel → Caller (Option Rejection)) : Caller (Option Rejection) := do
  let justFreed ← sect .waitForRelease
  let acquired ← sect .tryAcquire
  if acquired then pure none else wait justFreed

/-- The loop of `admit`, with the number of releases that the wait may still outlast. -/
def admitLoop : ℕ → Caller (Option Rejection)
  | 0 => admitRound fun justFreed => do
    let expiry ← sect (.selectLast justFreed)
    pure (some expiry.rejection)
  | rounds + 1 => admitRound fun justFreed => do
    let wake ← sect (.select justFreed)
    match wake with
    | .freed => admitLoop rounds
    | .timer => pure (some .waitExpired)
    | .context => pure (some .contextDone)

/-- `queue.admit` -/
def queueAdmit : Caller (Option Rejection) := do
  let acquired ← sect .tryAcquire
  if acquired then pure none
  else do
    let joined ← sect .joinQueue
    if joined then do
      let rounds ← sect .newTimer
      let refused ← admitLoop rounds
      let _ ← sect .leaveQueue
      pure refused
    else pure (some .queueFull)

/-- `acquire` -/
def acquire : Caller (Option Rejection) :=
  if B.hasQueue then queueAdmit
  else if B.hasGate then do
    let acquired ← sect .tryAcquire
    pure (if acquired then none else some .gateFull)
  else pure none

/-- `enter` after the breaker. -/
def enterGate : Caller (Option Rejection) := do
  let refused ← acquire B
  match refused with
  | none => pure none
  | some rejection =>
    if B.hasBreaker then do
      let _ ← sect .releaseProbe
      pure (some rejection)
    else pure (some rejection)

/-- `enter` -/
def enter : Caller (Option Rejection) :=
  if B.hasBreaker then do
    let allowed ← sect .allow
    if allowed then enterGate B else pure (some .breakerOpen)
  else enterGate B

/-- A section of a mechanism that may not be configured. -/
def ifBuilt (built : Bool) (p : Caller Unit) : Caller Unit := if built then p else pure ()

/-- The release function that `enter` returns. -/
def leave (result : RpcResult) : Caller Unit := do
  ifBuilt B.hasGate (sect .release)
  ifBuilt B.hasBreaker (sect (.record result))

/-- `guarded`: the rejection, or what the RPC returned. -/
def guarded : Caller (Except Rejection RpcResult) := do
  let refused ← enter B
  match refused with
  | some rejection => pure (.error rejection)
  | none => do
    let result ← sect .rpc
    leave B result
    pure (.ok result)

/-! ## The machine -/

/-- The guard as a machine. Its surroundings let time pass. -/
def guardMachine : Machine where
  Stmt := Section
  Ret := Section.Ret
  Err := Panic
  Op := Unit
  Result := Except Rejection RpcResult
  Env := ℕ
  Oracle := Circumstance
  Store := Shared
  exec := fun t o st s => exec B t o s st
  program := fun _ => guarded B
  abort := fun _ s => s
  environment := fun d s => some { s with clock := s.clock + d }

/-- A configuration of the guard. -/
abbrev Moment : Type := Machine.Config (guardMachine B)

/-- `newGuard`, at any time. -/
def Fresh (s : Shared) : Prop :=
  s.gate = newGate ∧ s.waiting = 0 ∧ s.breaker = newBreaker ∧ s.admissions = []

/-- Reached by the calls of a client from a new guard. -/
abbrev Arises (guard : Guard (guardMachine B)) (c : Moment B) : Prop :=
  Machine.Reachable (M := guardMachine B) Fresh guard c

end UndoLog.Proxy.Guard
