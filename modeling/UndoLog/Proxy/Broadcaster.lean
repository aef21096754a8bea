import Mathlib.Data.Int.Notation
import Mathlib.Data.List.Perm.Basic
import UndoLog.Concurrent.History

/-!
# The event broadcaster of a proxy

Each subscriber has a channel with a bounded buffer, and an emitter drops an event for a
subscriber whose buffer is full. Emitters hold a read lock while they go over the channels, so
several of them may be at it at once. The sections of `Subscribe`, of the functions it returns
and of `Close` hold the lock alone.
-/

namespace UndoLog.Proxy.Sse

open Concurrent Machine

/-- An event, as far as the broadcaster reads it. A missing time is Go's zero time. -/
structure Event where
  orgId : String
  timestamp : Option ℤ
  payload : List UInt8
deriving DecidableEq

/-! ## Channels -/

/-- A channel, by the order in which they are made. -/
abbrev Chan : Type := ℕ

/-- The contents of a channel. `received` is what its reader has taken out of it so far. -/
structure Channel where
  buffer : List Event
  received : List Event
  closed : Bool

/-- A channel that has just been made. -/
def Channel.new : Channel where
  buffer := []
  received := []
  closed := false

/-- What the runtime panics with. -/
inductive Panic where
  | sendOnClosedChannel
  | closeOfClosedChannel
deriving DecidableEq

/-- `close` of one channel. -/
def closeChannel (ch : Chan) (channels : Chan → Channel) : Except Panic (Chan → Channel) :=
  if (channels ch).closed then .error .closeOfClosedChannel
  else .ok (Function.update channels ch { channels ch with closed := true })

/-- `close` of several channels. -/
def closeAll : List Chan → (Chan → Channel) → Except Panic (Chan → Channel)
  | [], channels => .ok channels
  | ch :: rest, channels =>
    match closeChannel ch channels with
    | .ok channels => closeAll rest channels
    | .error p => .error p

/-! ## The broadcaster -/

/-- `Broadcaster`. The two levels of `subs` are one map. `readers` are the calls that hold the read
lock. -/
structure Broadcaster where
  bufferSize : ℕ
  subs : List ((String × UInt64) × Chan)
  nextId : UInt64
  channels : Chan → Channel
  made : ℕ
  readers : List ℕ

/-- `NewBroadcaster` -/
def newBroadcaster (bufferSize : ℤ) : Broadcaster where
  bufferSize := if bufferSize ≤ 0 then 128 else bufferSize.toNat
  subs := []
  nextId := 0
  channels := fun _ => .new
  made := 0
  readers := []

/-- The channels that are subscribed to an organisation. -/
def channelsOf (orgId : String) (subs : List ((String × UInt64) × Chan)) : List Chan :=
  (subs.filter (·.1.1 = orgId)).map (·.2)

/-- The sections of the calls. -/
inductive Section where
  /-- `time.Now`. -/
  | now
  /-- `RLock` and the list of channels to go over. -/
  | rlock (evt : Event)
  /-- The `select` that sends or drops an event. -/
  | send (ch : Chan) (evt : Event)
  | runlock
  /-- `nextID.Add`. -/
  | nextId
  /-- The locked section of `Subscribe`. Nobody else sees the channel before. -/
  | register (orgId : String) (id : UInt64)
  /-- The locked section of the unsubscribe function. -/
  | unsubscribe (orgId : String) (id : UInt64)
  /-- `Close`. -/
  | close

/-- What each section returns. -/
abbrev Section.Ret : Section → Type
  | .now => ℤ
  | .rlock _ => List Chan
  | .send _ _ => Bool
  | .nextId => UInt64
  | .register _ _ => Chan
  | .runlock | .unsubscribe _ _ | .close => Unit

/-- What a section reads from outside: the clock, and the order in which the runtime goes over
the channels of a map. -/
structure Circumstance where
  now : ℤ := 0
  order : List Chan := []

/-- One section. Those that write wait until no emitter holds the lock. -/
def exec (t : ℕ) (o : Circumstance) (s : Broadcaster) :
    (st : Section) → Option (Except Panic st.Ret × Broadcaster)
  | .now => some (.ok o.now, s)
  | .rlock evt =>
    if o.order.Perm (channelsOf evt.orgId s.subs) then
      some (.ok o.order, { s with readers := t :: s.readers })
    else none
  | .send ch evt =>
    let channel := s.channels ch
    if channel.closed then some (.error .sendOnClosedChannel, s)
    else if channel.buffer.length < s.bufferSize then
      some (.ok true, { s with
        channels := Function.update s.channels ch
          { channel with buffer := channel.buffer ++ [evt] } })
    else some (.ok false, s)
  | .runlock => some (.ok (), { s with readers := s.readers.filter (· ≠ t) })
  | .nextId => some (.ok (s.nextId + 1), { s with nextId := s.nextId + 1 })
  | .register orgId id =>
    if s.readers = [] then
      some (.ok s.made, { s with
        subs := ((orgId, id), s.made) :: s.subs.filter (·.1 ≠ (orgId, id))
        channels := Function.update s.channels s.made .new
        made := s.made + 1 })
    else none
  | .unsubscribe orgId id =>
    if s.readers = [] then
      match s.subs.find? (·.1 = (orgId, id)) with
      | none => some (.ok (), s)
      | some (_, ch) =>
        match closeChannel ch s.channels with
        | .error p => some (.error p, s)
        | .ok channels =>
          some (.ok (), { s with subs := s.subs.filter (·.1 ≠ (orgId, id)), channels })
    else none
  | .close =>
    if s.readers = [] then
      match closeAll (s.subs.map (·.2)) s.channels with
      | .error p => some (.error p, s)
      | .ok channels => some (.ok (), { s with subs := [], channels })
    else none

/-! ## Calls -/

/-- A part of a call. -/
abbrev Caller (α : Type) : Type := Program Section Section.Ret Panic α

/-- Run one section. -/
def sect (st : Section) : Caller st.Ret := Program.stmt st

/-- The calls of a broadcaster. An unsubscribe function is what `Subscribe` has returned it
for: an organisation and an identifier. -/
inductive Call where
  | emit (evt : Event)
  | subscribe (orgId : String)
  | unsubscribe (orgId : String) (id : UInt64)
  | close

/-- What the calls return. -/
inductive Answer where
  | done
  | subscribed (ch : Chan) (orgId : String) (id : UInt64)

/-- The loop of `Emit` over the channels. -/
def sendAll (evt : Event) : List Chan → Caller Unit
  | [] => pure ()
  | ch :: rest => do
    let _ ← sect (.send ch evt)
    sendAll evt rest

/-- `Emit` once the event has its time. -/
def fanOut (evt : Event) : Caller Answer := do
  let channels ← sect (.rlock evt)
  sendAll evt channels
  sect .runlock
  pure .done

/-- `Emit` -/
def emit (evt : Event) : Caller Answer :=
  if evt.orgId = "" then pure .done
  else
    match evt.timestamp with
    | some _ => fanOut evt
    | none => do
      let now ← sect .now
      fanOut { evt with timestamp := some now }

/-- `Subscribe` -/
def subscribe (orgId : String) : Caller Answer := do
  let id ← sect .nextId
  let ch ← sect (.register orgId id)
  pure (.subscribed ch orgId id)

/-- The program of each call. -/
def callProgram : Call → Caller Answer
  | .emit evt => emit evt
  | .subscribe orgId => subscribe orgId
  | .unsubscribe orgId id => do
    sect (.unsubscribe orgId id)
    pure .done
  | .close => do
    sect .close
    pure .done

/-- A reader takes the next event out of its channel. -/
def receive (ch : Chan) (s : Broadcaster) : Option Broadcaster :=
  match (s.channels ch).buffer with
  | [] => none
  | evt :: rest => some { s with
      channels := Function.update s.channels ch
        { s.channels ch with buffer := rest, received := (s.channels ch).received ++ [evt] } }

/-- The broadcaster as a machine. Its surroundings are the readers of the channels, and the
deferred unlock of a call runs however the call ends. -/
def broadcasting : Machine where
  Stmt := Section
  Ret := Section.Ret
  Err := Panic
  Op := Call
  Result := Answer
  Env := Chan
  Oracle := Circumstance
  Store := Broadcaster
  exec := fun t o st s => exec t o s st
  program := callProgram
  abort := fun t s => { s with readers := s.readers.filter (· ≠ t) }
  environment := receive

/-- A configuration of the broadcaster. -/
abbrev Moment : Type := Machine.Config broadcasting

/-- A new broadcaster. -/
def Fresh (s : Broadcaster) : Prop := ∃ bufferSize, s = newBroadcaster bufferSize

/-- Reached by calls in any order from a new broadcaster. -/
abbrev Arises (c : Moment) : Prop := Machine.Reachable (M := broadcasting) Fresh unguarded c

end UndoLog.Proxy.Sse
