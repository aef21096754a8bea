import Mathlib.Data.List.Induction
import Mathlib.Data.List.Nodup
import UndoLog.Concurrent.Extension
import UndoLog.Proxy.Broadcaster

/-!
# Events reach the subscribers of their organisation

Whatever calls overlap, no channel is closed twice and nothing is sent on a closed channel. A
subscriber gets a part of the events that are emitted for its organisation while it is
subscribed: an event of a call that returned before another call started comes first.
-/

namespace UndoLog.Proxy.Sse

open Concurrent Machine

variable {c c' : Moment} {choice : Choice broadcasting}

/-! ## Channels of the map -/

/-- The channels of the map have been made, stand there once and are open. -/
structure Broadcaster.Sound (s : Broadcaster) : Prop where
  lt : ∀ e ∈ s.subs, e.2 < s.made
  nodup : (s.subs.map (·.2)).Nodup
  isOpen : ∀ e ∈ s.subs, (s.channels e.2).closed = false

variable {s s' : Broadcaster} {t : ℕ} {ch : Chan} {evt : Event} {o : Circumstance} {st : Section}
    {reply : Except Panic st.Ret} {orgId : String} {past : List (Ran Section Section.Ret Panic)}
    {order : List Chan} {channels : Chan → Channel} {op : Call} {u : ℕ} {id : UInt64}
    {x : Ran Section Section.Ret Panic}

theorem mem_channelsOf {subs : List ((String × UInt64) × Chan)} :
    ch ∈ channelsOf orgId subs ↔ ∃ id, ((orgId, id), ch) ∈ subs := by
  unfold channelsOf
  constructor
  · intro h
    obtain ⟨⟨⟨org, id⟩, ch'⟩, hfiltered, rfl⟩ := List.mem_map.mp h
    obtain ⟨hmem, horg⟩ := List.mem_filter.mp hfiltered
    obtain rfl : org = orgId := by simpa using horg
    exact ⟨id, hmem⟩
  · rintro ⟨id, hmem⟩
    exact List.mem_map.mpr ⟨_, List.mem_filter.mpr ⟨hmem, by simp⟩, rfl⟩

/-- What is in a channel or was taken out of it. -/
def Channel.delivered (channel : Channel) : List Event := channel.received ++ channel.buffer

/-- Writing to a channel keeps what the write keeps. -/
theorem update_column {α : Type} {channel : Channel} (f : Channel → α)
    (h : f channel = f (channels ch)) (other : Chan) :
    f (Function.update channels ch channel other) = f (channels other) := by
  by_cases heq : other = ch
  · subst heq
    rw [Function.update_self, h]
  · rw [Function.update_of_ne heq]

theorem closeAll_of_open {chans : List Chan} (hnodup : chans.Nodup)
    (hopen : ∀ ch ∈ chans, (channels ch).closed = false) :
    ∃ channels', closeAll chans channels = .ok channels' ∧
      ∀ ch, (channels' ch).delivered = (channels ch).delivered := by
  induction chans generalizing channels with
  | nil => exact ⟨channels, rfl, fun _ => rfl⟩
  | cons ch rest ih =>
    obtain ⟨hch, hrest⟩ := List.nodup_cons.mp hnodup
    obtain ⟨hfirst, hothers⟩ := List.forall_mem_cons.mp hopen
    have hstill : ∀ other ∈ rest,
        (Function.update channels ch { channels ch with closed := true } other).closed = false := by
      intro other hmem
      rw [Function.update_of_ne (by rintro rfl; exact hch hmem)]
      exact hothers other hmem
    obtain ⟨channels', hclosed, hsame⟩ := ih hrest hstill
    refine ⟨channels', ?_, fun other => ?_⟩
    · simp only [closeAll, closeChannel, hfirst]
      exact hclosed
    · rw [hsame other]
      exact update_column Channel.delivered (by rfl) other

/-- `Close` can close the channels of the map. -/
theorem Broadcaster.Sound.closeAll_ok (h : s.Sound) :
    ∃ channels', closeAll (s.subs.map (·.2)) s.channels = .ok channels' ∧
      ∀ ch, (channels' ch).delivered = (s.channels ch).delivered := by
  refine closeAll_of_open h.nodup fun ch hch => ?_
  obtain ⟨e, he, rfl⟩ := List.mem_map.mp hch
  exact h.isOpen e he

/-- What a section does. -/
inductive Effect (t : ℕ) (o : Circumstance) (s : Broadcaster) :
    (st : Section) → Except Panic st.Ret → Broadcaster → Prop
  | now : Effect t o s .now (.ok o.now) s
  | rlock {evt : Event} (horder : o.order.Perm (channelsOf evt.orgId s.subs)) :
      Effect t o s (.rlock evt) (.ok o.order) { s with readers := t :: s.readers }
  | sendClosed {ch : Chan} {evt : Event} (hclosed : (s.channels ch).closed = true) :
      Effect t o s (.send ch evt) (.error .sendOnClosedChannel) s
  | sent {ch : Chan} {evt : Event} (hopen : (s.channels ch).closed = false) :
      Effect t o s (.send ch evt) (.ok true) { s with
        channels := Function.update s.channels ch
          { s.channels ch with buffer := (s.channels ch).buffer ++ [evt] } }
  | dropped {ch : Chan} {evt : Event} : Effect t o s (.send ch evt) (.ok false) s
  | runlock : Effect t o s .runlock (.ok ()) { s with readers := s.readers.filter (· ≠ t) }
  | nextId : Effect t o s .nextId (.ok (s.nextId + 1)) { s with nextId := s.nextId + 1 }
  | register {orgId : String} {id : UInt64} (hfree : s.readers = []) :
      Effect t o s (.register orgId id) (.ok s.made) { s with
        subs := ((orgId, id), s.made) :: s.subs.filter (·.1 ≠ (orgId, id))
        channels := Function.update s.channels s.made .new
        made := s.made + 1 }
  | unsubscribedBefore {orgId : String} {id : UInt64} (hfree : s.readers = [])
      (hnone : s.subs.find? (·.1 = (orgId, id)) = none) :
      Effect t o s (.unsubscribe orgId id) (.ok ()) s
  | unsubscribeFails {orgId : String} {id : UInt64} {ch : Chan}
      (hmem : ((orgId, id), ch) ∈ s.subs) (hclosed : (s.channels ch).closed = true) :
      Effect t o s (.unsubscribe orgId id) (.error .closeOfClosedChannel) s
  | unsubscribed {orgId : String} {id : UInt64} {ch : Chan} (hfree : s.readers = [])
      (hmem : ((orgId, id), ch) ∈ s.subs) :
      Effect t o s (.unsubscribe orgId id) (.ok ()) { s with
        subs := s.subs.filter (·.1 ≠ (orgId, id))
        channels := Function.update s.channels ch { s.channels ch with closed := true } }
  | closeFails {p : Panic} (hclosed : closeAll (s.subs.map (·.2)) s.channels = .error p) :
      Effect t o s .close (.error p) s
  | closed {channels : Chan → Channel} (hfree : s.readers = [])
      (hclosed : closeAll (s.subs.map (·.2)) s.channels = .ok channels) :
      Effect t o s .close (.ok ()) { s with subs := [], channels := channels }

theorem Effect.of_exec (h : exec t o s st = some (reply, s')) : Effect t o s st reply s' := by
  cases st with
  | now =>
    cases h
    exact .now
  | rlock evt =>
    simp only [exec] at h
    split at h
    · next horder =>
      cases h
      exact .rlock horder
    · cases h
  | send ch evt =>
    simp only [exec] at h
    split at h
    · next hclosed =>
      cases h
      exact .sendClosed hclosed
    · next hopen =>
      split at h
      · cases h
        exact .sent (by simpa using hopen)
      · cases h
        exact .dropped
  | runlock =>
    cases h
    exact .runlock
  | nextId =>
    cases h
    exact .nextId
  | register orgId id =>
    simp only [exec] at h
    split at h
    · next hfree =>
      cases h
      exact .register hfree
    · cases h
  | unsubscribe orgId id =>
    simp only [exec] at h
    split at h
    · next hfree =>
      split at h
      · next hnone =>
        cases h
        exact .unsubscribedBefore hfree hnone
      · next key ch hfound =>
        have hmem := List.mem_of_find?_eq_some hfound
        obtain rfl : key = (orgId, id) := by simpa using List.find?_some hfound
        unfold closeChannel at h
        by_cases hclosed : (s.channels ch).closed = true
        · rw [if_pos hclosed] at h
          cases h
          exact .unsubscribeFails hmem hclosed
        · rw [if_neg hclosed] at h
          cases h
          exact .unsubscribed hfree hmem
    · cases h
  | close =>
    simp only [exec] at h
    split at h
    · next hfree =>
      split at h
      · next hclosed =>
        cases h
        exact .closeFails hclosed
      · next hclosed =>
        cases h
        exact .closed hfree hclosed
    · cases h

theorem Effect.panics {p : Panic} (h : Effect t o s st (.error p) s') :
    (∃ ch evt, st = .send ch evt ∧ (s.channels ch).closed = true) ∨
    (∃ key ch, (key, ch) ∈ s.subs ∧ (s.channels ch).closed = true) ∨
    closeAll (s.subs.map (·.2)) s.channels = .error p := by
  cases h with
  | sendClosed hclosed => exact .inl ⟨_, _, rfl, hclosed⟩
  | unsubscribeFails hmem hclosed => exact .inr (.inl ⟨_, _, hmem, hclosed⟩)
  | closeFails hclosed => exact .inr (.inr hclosed)

theorem rlock_eq (h : exec t o s (.rlock evt) = some (.ok order, s')) :
    order.Perm (channelsOf evt.orgId s.subs) ∧ s' = { s with readers := t :: s.readers } := by
  cases Effect.of_exec h with
  | rlock horder => exact ⟨horder, rfl⟩

theorem Effect.registered_eq (h : Effect t o s (.register orgId id) (.ok ch) s') :
    ch = s.made ∧ s'.made = s.made + 1 := by
  cases h
  exact ⟨rfl, rfl⟩

theorem Effect.sound (h : Effect t o s st reply s') (hs : s.Sound) : s'.Sound := by
  cases h with
  | now | sendClosed | dropped | unsubscribedBefore | unsubscribeFails | closeFails => exact hs
  | rlock | runlock | nextId => exact ⟨hs.lt, hs.nodup, hs.isOpen⟩
  | @sent ch evt hopen =>
    refine ⟨hs.lt, hs.nodup, fun e he => ?_⟩
    exact (update_column Channel.closed (by rfl) e.2).trans (hs.isOpen e he)
  | @register orgId id hfree =>
    have hold : ∀ e ∈ s.subs.filter (·.1 ≠ (orgId, id)), e ∈ s.subs :=
      fun e he => (List.mem_filter.mp he).1
    refine ⟨?_, ?_, ?_⟩
    · refine List.forall_mem_cons.mpr ⟨Nat.lt_succ_self _, fun e he => ?_⟩
      exact Nat.lt_succ_of_lt (hs.lt e (hold e he))
    · refine List.nodup_cons.mpr ⟨fun hmem => ?_, hs.nodup.sublist (List.filter_sublist.map _)⟩
      obtain ⟨e, he, heq⟩ := List.mem_map.mp hmem
      exact Nat.lt_irrefl _ (heq ▸ hs.lt e (hold e he))
    · refine List.forall_mem_cons.mpr ⟨?_, fun e he => ?_⟩
      · dsimp only
        rw [Function.update_self]
        rfl
      · dsimp only
        rw [Function.update_of_ne (Nat.ne_of_lt (hs.lt e (hold e he)))]
        exact hs.isOpen e (hold e he)
  | @unsubscribed orgId id ch hfree hmem =>
    have hold : ∀ e ∈ s.subs.filter (·.1 ≠ (orgId, id)), e ∈ s.subs :=
      fun e he => (List.mem_filter.mp he).1
    refine ⟨fun e he => hs.lt e (hold e he), hs.nodup.sublist (List.filter_sublist.map _), ?_⟩
    intro e he
    have hne : e.2 ≠ ch := by
      rintro rfl
      have hkey : e.1 = (orgId, id) :=
        congrArg Prod.fst (List.inj_on_of_nodup_map hs.nodup (hold e he) hmem rfl)
      simp [hkey] at he
    dsimp only
    rw [Function.update_of_ne hne]
    exact hs.isOpen e (hold e he)
  | closed => exact ⟨by simp, by simp, by simp⟩

/-- The store of a broadcaster, by its type. -/
abbrev storeOf (c : Moment) : Broadcaster := c.store

theorem receive_eq (h : receive ch s = some s') :
    ∃ evt rest, (s.channels ch).buffer = evt :: rest ∧ s' = { s with
      channels := Function.update s.channels ch
        { s.channels ch with buffer := rest, received := (s.channels ch).received ++ [evt] } } := by
  unfold receive at h
  split at h
  · cases h
  · next evt rest hbuffer =>
    cases h
    exact ⟨evt, rest, hbuffer, rfl⟩

theorem receive_closed (h : receive ch s = some s')
    (other : Chan) : (s'.channels other).closed = (s.channels other).closed := by
  obtain ⟨evt, rest, -, rfl⟩ := receive_eq h
  exact update_column Channel.closed (by rfl) other

theorem sound (hc : Arises c) : (storeOf c).Sound := by
  refine hc.invariant ?_ ?_
  · rintro s ⟨bufferSize, rfl⟩
    exact ⟨by simp [storeOf, Config.initial, newBroadcaster],
      by simp [storeOf, Config.initial, newBroadcaster],
      by simp [storeOf, Config.initial, newBroadcaster]⟩
  · intro c choice c' _ ih _ htrans
    cases htrans with
    | start | finish => exact ih
    | run hcall hexec => exact (Effect.of_exec hexec).sound ih
    | crash hcall => exact ⟨ih.lt, ih.nodup, ih.isOpen⟩
    | environment henv =>
      have hclosed := receive_closed henv
      obtain ⟨evt, rest, -, hstore⟩ := receive_eq henv
      subst hstore
      exact ⟨ih.lt, ih.nodup, fun e he => (hclosed e.2).trans (ih.isOpen e he)⟩

/-! ## What an emitter has done -/

/-- The channels that a call has gone over. -/
def visited (past : List (Ran Section Section.Ret Panic)) : List Chan :=
  past.filterMap fun
    | ⟨.send ch _, _⟩ => some ch
    | _ => none

/-- Nothing but the clock was asked. -/
def Unlocked (past : List (Ran Section Section.Ret Panic)) : Prop :=
  ∀ x ∈ past, x.1 = .now

/-- The call holds the read lock for an event and has a list of channels to go over. -/
def Locked (evt : Event) (order : List Chan) (past : List (Ran Section Section.Ret Panic)) : Prop :=
  ⟨.rlock evt, .ok order⟩ ∈ past ∧ ∀ x ∈ past, x.1 ≠ .runlock

/-- An event and the event that was to be emitted, which may have had no time yet. -/
def Stamped (evt stamped : Event) : Prop :=
  stamped = evt ∨ evt.timestamp = none ∧ ∃ now, stamped = { evt with timestamp := some now }

/-- What a call has run before each of its sections. -/
def emitPre (op : Call) (past : List (Ran Section Section.Ret Panic)) : Section → Prop
  | .rlock evt => Unlocked past ∧ ∃ original, op = .emit original ∧ Stamped original evt
  | .send ch evt => ∃ order, Locked evt order past ∧ visited past ++ [ch] <+: order
  | .runlock => ∃ evt order, Locked evt order past
  | _ => True

/-- The section behind the answer of a call. -/
def HasRun (past : List (Ran Section Section.Ret Panic)) : Call → Answer → Prop
  | .subscribe orgId, .subscribed ch orgId' id =>
    orgId' = orgId ∧ ⟨.register orgId id, .ok ch⟩ ∈ past
  | .subscribe _, .done => False
  | .unsubscribe orgId id, _ => ⟨.unsubscribe orgId id, .ok ()⟩ ∈ past
  | .close, _ => ⟨.close, .ok ()⟩ ∈ past
  | .emit _, _ => True

theorem visited_append (past past' : List (Ran Section Section.Ret Panic)) :
    visited (past ++ past') = visited past ++ visited past' :=
  List.filterMap_append

theorem Unlocked.visited (h : Unlocked past) : visited past = [] := by
  refine List.filterMap_eq_nil_iff.mpr ?_
  rintro ⟨st, reply⟩ hx
  obtain rfl : st = .now := h _ hx
  rfl

theorem Locked.snoc (h : Locked evt order past) (hx : x.1 ≠ .runlock) :
    Locked evt order (past ++ [x]) := by
  refine ⟨List.mem_append_left _ h.1, fun y hy => ?_⟩
  rcases List.mem_snoc.mp hy with hold | rfl
  · exact h.2 y hold
  · exact hx

theorem sendAll_satisfies {rest : List Chan} (hlocked : Locked evt order past)
    (hsplit : visited past ++ rest = order) :
    Program.Satisfies (emitPre op) (fun after _ => Locked evt order after) past
      (sendAll evt rest) := by
  induction rest generalizing past with
  | nil => exact hlocked
  | cons ch rest ih =>
    have hnext : visited past ++ [ch] <+: order := by
      rw [← hsplit]
      exact ⟨rest, by simp⟩
    have hafter : ∀ reply, Locked evt order (past ++ [⟨.send ch evt, reply⟩]) :=
      fun reply => hlocked.snoc (by simp)
    refine Program.satisfies_stmt_bind ⟨order, hlocked, hnext⟩ (fun _ => hafter _) fun a => ?_
    refine ih (hafter _) ?_
    rw [visited_append]
    simpa [visited] using hsplit

theorem fanOut_satisfies {original : Event} (hop : op = .emit original)
    (hstamped : Stamped original evt) (hunlocked : Unlocked past) :
    Program.Satisfies (emitPre op) (fun _ _ => True) past (fanOut evt) := by
  refine Program.satisfies_stmt_bind ⟨hunlocked, original, hop, hstamped⟩ (fun _ => trivial)
    fun order => ?_
  have hlocked : Locked evt order (past ++ [⟨.rlock evt, .ok order⟩]) := by
    refine ⟨by simp, fun x hx => ?_⟩
    rcases List.mem_snoc.mp hx with hold | rfl
    · rw [hunlocked x hold]
      simp
    · simp
  have hvisited : visited (past ++ [⟨.rlock evt, .ok order⟩]) ++ order = order := by
    rw [visited_append, hunlocked.visited]
    rfl
  refine (sendAll_satisfies hlocked hvisited).andThen ?_
  rintro after (e | ⟨⟩) hafter
  · trivial
  · exact ⟨⟨evt, order, hafter⟩, fun reply => by cases reply <;> trivial⟩

theorem emit_satisfies (evt : Event) :
    Program.Satisfies (emitPre (.emit evt)) (fun _ _ => True) [] (emit evt) := by
  unfold emit
  split
  · trivial
  · split
    · exact fanOut_satisfies rfl (.inl rfl) (by simp [Unlocked])
    · next htime =>
      refine Program.satisfies_stmt_bind trivial (fun _ => trivial) fun now => ?_
      refine fanOut_satisfies rfl (.inr ⟨htime, now, rfl⟩) ?_
      simp [Unlocked]

/-- The contract of the calls. -/
def emitting : Contract broadcasting where
  pre := emitPre
  post := fun op past r => ∀ answer, r = .ok answer → HasRun past op answer
  satisfied := by
    intro op
    cases op with
    | emit evt => exact (emit_satisfies evt).mono (fun _ _ h => h) fun _ _ _ _ _ => trivial
    | subscribe orgId =>
      refine Program.satisfies_stmt_bind trivial (by rintro _ _ ⟨⟩) fun id => ?_
      refine Program.satisfies_stmt_bind trivial (by rintro _ _ ⟨⟩) fun ch => ?_
      rintro _ ⟨⟩
      exact ⟨rfl, List.mem_concat_self⟩
    | unsubscribe | close =>
      refine Program.satisfies_stmt_bind trivial (by rintro _ _ ⟨⟩) fun _ => ?_
      rintro _ ⟨⟩
      exact List.mem_concat_self

/-! ## The read lock -/

/-- Only sections that hold the lock alone change the map, and only the call itself gives back
its read lock. -/
theorem Effect.frame (h : Effect t o s st reply s') : (s'.subs = s.subs ∨ s.readers = []) ∧
      ∀ u ∈ s.readers, u ∈ s'.readers ∨ u = t ∧ st = .runlock := by
  cases h with
  | now | sendClosed | sent | dropped | nextId | unsubscribedBefore | unsubscribeFails
  | closeFails => exact ⟨.inl rfl, fun u hu => .inl hu⟩
  | rlock => exact ⟨.inl rfl, fun u hu => .inl (List.mem_cons_of_mem _ hu)⟩
  | runlock =>
    refine ⟨.inl rfl, fun u hu => ?_⟩
    by_cases heq : u = t
    · exact .inr ⟨heq, rfl⟩
    · exact .inl (List.mem_filter.mpr ⟨hu, by simpa using heq⟩)
  | register hfree | unsubscribed hfree | closed hfree => exact ⟨.inr hfree, fun u hu => .inl hu⟩

theorem holding (hc : Arises c) : ∀ (t : ℕ) (evt : Event) (order : List Chan),
    (c.calls t).isSome = true → .ran t (.rlock evt) (.ok order) ∈ c.trace →
    (∀ reply, .ran t .runlock reply ∉ c.trace) →
    t ∈ (storeOf c).readers ∧ order.Perm (channelsOf evt.orgId (storeOf c).subs) := by
  refine hc.invariant ?_ ?_
  · intro s _ t evt order hrunning
    cases hrunning
  · intro c choice c' hc ih _ htrans t evt order hrunning hlock hheld
    obtain ⟨event, htrace⟩ := htrans.trace
    have hheld' : ∀ reply, .ran t .runlock reply ∉ c.trace :=
      fun reply hmem => hheld reply (htrans.subset hmem)
    rw [htrace] at hlock
    rcases List.mem_snoc.mp hlock with hold | rfl
    · obtain ⟨op, hstart⟩ := hc.coherent.ran_started _ _ _ hold
      have hrunning' := hc.running_before htrans hstart hrunning
      obtain ⟨hreader, hperm⟩ := ih t evt order hrunning' hold hheld'
      cases htrans with
      | start | finish => exact ⟨hreader, hperm⟩
      | @run u o st next reply store hcall hexec =>
        obtain ⟨hsubs, hreaders⟩ := (Effect.of_exec hexec).frame
        rcases hsubs with hsubs | hfree
        · rcases hreaders t hreader with hstill | ⟨rfl, rfl⟩
          · refine ⟨hstill, ?_⟩
            change order.Perm (channelsOf evt.orgId (Broadcaster.subs store))
            rw [hsubs]
            exact hperm
          · exact absurd List.mem_concat_self (hheld reply)
        · rw [hfree] at hreader
          cases hreader
      | @crash u p hcall =>
        have hne : t ≠ u := by
          rintro rfl
          simp at hrunning
        exact ⟨List.mem_filter.mpr ⟨hreader, by simpa using hne⟩, hperm⟩
      | environment henv =>
        obtain ⟨_, _, -, hstore⟩ := receive_eq henv
        subst hstore
        exact ⟨hreader, hperm⟩
    · obtain ⟨o, next, -, -, hexec⟩ := htrans.of_ran htrace
      obtain ⟨hperm, hstore⟩ := rlock_eq hexec
      change t ∈ Broadcaster.readers c'.store ∧
        order.Perm (channelsOf evt.orgId (Broadcaster.subs c'.store))
      rw [hstore]
      exact ⟨List.mem_cons_self, hperm⟩

/-- The channel that an emitter is about to send to is one that it has found in the map and has
not sent to yet. -/
theorem sending (hc : Arises c) {next : Except Panic Bool → Prog broadcasting}
    (hcall : c.calls t = some (.call (.send ch evt) next)) :
    ∃ order : List Chan, .ran t (.rlock evt) (.ok order) ∈ c.trace ∧ ch ∈ order ∧
      (∀ reply, .ran t .runlock reply ∉ c.trace) ∧ ch ∉ visited (ranBy t c.trace) ∧
      ∃ id, ((evt.orgId, id), ch) ∈ (storeOf c).subs := by
  obtain ⟨op, -, order, ⟨hlock, hheld⟩, hprefix⟩ := emitting.pre_of_call hc.coherent hcall
  have hlocked : .ran t (.rlock evt) (.ok order) ∈ c.trace := mem_ranBy.mp hlock
  have hunreleased : ∀ reply, .ran t .runlock reply ∉ c.trace :=
    fun reply hmem => hheld ⟨.runlock, reply⟩ (mem_ranBy.mpr hmem) rfl
  have hch : ch ∈ order := hprefix.subset List.mem_concat_self
  obtain ⟨-, hperm⟩ := holding hc t evt order (by simp [hcall]) hlocked hunreleased
  have hnodup : order.Nodup := hperm.nodup_iff.mpr
    ((sound hc).nodup.sublist (List.filter_sublist.map _))
  refine ⟨order, hlocked, hch, hunreleased, ?_, mem_channelsOf.mp (hperm.subset hch)⟩
  have hboth := hnodup.sublist hprefix.sublist
  exact fun hmem => (List.nodup_append.mp hboth).2.2 ch hmem ch (by simp) rfl

theorem no_panic (hc : Arises c) : ∀ (t : ℕ) (st : Section) (p : Panic),
    .ran t st (.error p) ∉ c.trace := by
  intro t st p hmem
  refine hc.since hmem ?_ fun _ _ _ _ _ _ hnever => hnever
  intro c choice c' hc _ htrans htrace
  obtain ⟨o, next, -, hcall, hexec⟩ := htrans.of_ran htrace
  have hsound := sound hc
  rcases (Effect.of_exec hexec).panics with ⟨ch, evt, rfl, hclosed⟩ | ⟨key, ch, hmem, hclosed⟩ |
    hclosed
  · obtain ⟨-, -, -, -, -, id, hmem⟩ := sending hc hcall
    exact absurd hclosed (by simp [hsound.isOpen _ hmem])
  · exact absurd hclosed (by simp [hsound.isOpen _ hmem])
  · obtain ⟨channels, hok, -⟩ := hsound.closeAll_ok
    rw [hok] at hclosed
    cases hclosed

/-! ## What a subscriber gets -/

/-- The event that a section puts into a channel. -/
def sentOn (ch : Chan) : Ran Section Section.Ret Panic → Option Event
  | ⟨.send ch' evt, .ok true⟩ => if ch' = ch then some evt else none
  | _ => none

theorem sentOn_eq (h : sentOn ch x = some evt) : x = ⟨.send ch evt, .ok true⟩ := by
  unfold sentOn at h
  split at h
  · split at h
    · next heq =>
      cases h
      rw [heq]
    · cases h
  · cases h

/-- The events put into a channel, with the calls that emit them. -/
def sent (ch : Chan) (trace : List broadcasting.Event) : List (ℕ × Event) :=
  collect (M := broadcasting) (sentOn ch) trace

theorem sent_ran (ch : Chan) (trace : List broadcasting.Event) (t : ℕ) (st : broadcasting.Stmt)
    (reply : Except broadcasting.Err (broadcasting.Ret st)) : sent ch (trace ++ [.ran t st reply]) =
      sent ch trace ++ (sentOn ch ⟨st, reply⟩).toList.map fun evt => (t, evt) := by
  cases h : sentOn ch ⟨st, reply⟩ with
  | some evt => exact collect_snoc h
  | none =>
    refine (collect_snoc_of_none ?_).trans (List.append_nil _).symm
    rintro _ _ _ ⟨⟩
    exact h

/-- What a section does to a channel: it makes it, puts an event into it, or leaves what it
delivers as it is. -/
theorem Effect.delivered (h : Effect t o s st reply s') (hs : s.Sound) (ch : Chan) :
    (ch = s.made ∧ (s'.channels ch).delivered = [] ∧ sentOn ch ⟨st, reply⟩ = none) ∨
    (s'.channels ch).delivered = (s.channels ch).delivered ++ (sentOn ch ⟨st, reply⟩).toList := by
  cases h with
  | now | rlock | sendClosed | dropped | runlock | nextId | unsubscribedBefore
  | unsubscribeFails | closeFails => exact .inr (List.append_nil _).symm
  | @sent target evt hopen =>
    right
    by_cases heq : target = ch
    · subst heq
      simp [sentOn, Channel.delivered]
    · have hother : ch ≠ target := fun h => heq h.symm
      simp [sentOn, heq, Function.update_of_ne hother]
  | register =>
    by_cases heq : ch = s.made
    · subst heq
      refine .inl ⟨rfl, ?_, rfl⟩
      dsimp only
      rw [Function.update_self]
      rfl
    · right
      dsimp only
      rw [Function.update_of_ne heq]
      exact (List.append_nil _).symm
  | unsubscribed =>
    exact .inr ((update_column Channel.delivered (by rfl) ch).trans (List.append_nil _).symm)
  | closed hfree hclosed =>
    obtain ⟨channels, hok, hsame⟩ := hs.closeAll_ok
    rw [hok] at hclosed
    cases hclosed
    exact .inr ((hsame ch).trans (List.append_nil _).symm)

theorem Effect.made_le (h : Effect t o s st reply s') : s.made ≤ s'.made := by
  cases h with
  | register => exact Nat.le_succ _
  | _ => exact Nat.le_refl _

theorem receive_delivered (h : receive ch s = some s')
    (other : Chan) : (s'.channels other).delivered = (s.channels other).delivered := by
  obtain ⟨evt, rest, hbuffer, rfl⟩ := receive_eq h
  exact update_column Channel.delivered (by simp [Channel.delivered, hbuffer]) other

theorem made_le (htrans : Transition c choice c') : (storeOf c).made ≤ (storeOf c').made := by
  cases htrans with
  | start | finish | crash => exact Nat.le_refl _
  | run hcall hexec => exact (Effect.of_exec hexec).made_le
  | environment henv =>
    obtain ⟨_, _, -, hstore⟩ := receive_eq henv
    subst hstore
    exact Nat.le_refl _

/-! ## What is emitted for a subscriber -/

/-- Follow a subscription over a section of a call: whether it is there, and the events emitted for
its organisation meanwhile, with their calls. It begins when the channel is registered and ends with
the unsubscribe function or with `Close`. -/
def watchRan (orgId : String) (id : UInt64) (ch : Chan) (seen : Bool × List (ℕ × Event)) (t : ℕ) :
    Ran Section Section.Ret Panic → Bool × List (ℕ × Event)
  | ⟨.register _ _, .ok made⟩ => if made = ch then (true, seen.2) else seen
  | ⟨.unsubscribe orgId' id', _⟩ =>
    if orgId' = orgId ∧ id' = id then (false, seen.2) else seen
  | ⟨.close, _⟩ => (false, seen.2)
  | ⟨.rlock evt, _⟩ =>
    if seen.1 = true ∧ evt.orgId = orgId then (seen.1, seen.2 ++ [(t, evt)]) else seen
  | _ => seen

/-- Follow a subscription over one event of a run. -/
def watch (orgId : String) (id : UInt64) (ch : Chan) (seen : Bool × List (ℕ × Event)) :
    broadcasting.Event → Bool × List (ℕ × Event)
  | .ran t st reply => watchRan orgId id ch seen t ⟨st, reply⟩
  | _ => seen

/-- A subscription after a run. -/
def watched (orgId : String) (id : UInt64) (ch : Chan) (trace : List broadcasting.Event) :
    Bool × List (ℕ × Event) :=
  trace.foldl (watch orgId id ch) (false, [])

/-- The events emitted for a subscriber while it is subscribed, with the calls that emit
them. -/
def emittedTo (orgId : String) (id : UInt64) (ch : Chan) (trace : List broadcasting.Event) :
    List (ℕ × Event) :=
  (watched orgId id ch trace).2

theorem watched_snoc (orgId : String) (id : UInt64) (ch : Chan) (trace : List broadcasting.Event)
    (event : broadcasting.Event) : watched orgId id ch (trace ++ [event]) =
      watch orgId id ch (watched orgId id ch trace) event := by
  rw [watched, List.foldl_append]
  rfl

/-- A step adds the event of an emitter that takes the lock, or nothing. -/
theorem watch_cases (orgId : String) (id : UInt64) (ch : Chan) (seen : Bool × List (ℕ × Event))
    (event : broadcasting.Event) : (watch orgId id ch seen event).2 = seen.2 ∨
    ∃ t evt reply, event = .ran t (.rlock evt) reply ∧ evt.orgId = orgId ∧
      (watch orgId id ch seen event).2 = seen.2 ++ [(t, evt)] := by
  cases event with
  | ran t st reply =>
    cases st with
    | rlock evt =>
      by_cases h : seen.1 = true ∧ evt.orgId = orgId
      · exact .inr ⟨t, evt, reply, rfl, h.2, by simp [watch, watchRan, h]⟩
      · exact .inl (by simp [watch, watchRan, h])
    | register orgId' id' =>
      left
      cases reply with
      | error p => rfl
      | ok made =>
        simp only [watch, watchRan]
        split <;> rfl
    | unsubscribe orgId' id' =>
      left
      simp only [watch, watchRan]
      split <;> rfl
    | _ => exact .inl rfl
  | _ => exact .inl rfl

theorem emittedTo_subset (orgId : String) (id : UInt64) (ch : Chan)
    (trace : List broadcasting.Event) (event : broadcasting.Event) :
    emittedTo orgId id ch trace ⊆ emittedTo orgId id ch (trace ++ [event]) := by
  rw [emittedTo, emittedTo, watched_snoc]
  rcases watch_cases orgId id ch (watched orgId id ch trace) event with h | ⟨_, _, _, -, -, h⟩
  · rw [h]
    exact List.Subset.refl _
  · rw [h]
    exact List.subset_append_left _ _

theorem locked_of_emittedTo {trace : List broadcasting.Event}
    (h : (t, evt) ∈ emittedTo orgId id ch trace) :
    evt.orgId = orgId ∧ ∃ reply, .ran t (.rlock evt) reply ∈ trace := by
  induction trace using List.reverseRecOn with
  | nil => cases h
  | append_singleton trace event ih =>
    rw [emittedTo, watched_snoc] at h
    have hold : (t, evt) ∈ emittedTo orgId id ch trace →
        evt.orgId = orgId ∧ ∃ reply, .ran t (.rlock evt) reply ∈ trace ++ [event] := by
      intro hmem
      obtain ⟨horg, reply, hran⟩ := ih hmem
      exact ⟨horg, reply, List.mem_append_left _ hran⟩
    rcases watch_cases orgId id ch (watched orgId id ch trace) event with
      hsame | ⟨u, evt', reply, rfl, horg, hmore⟩
    · rw [hsame] at h
      exact hold h
    · rw [hmore] at h
      rcases List.mem_snoc.mp h with hmem | heq
      · exact hold hmem
      · cases heq
        exact ⟨horg, reply, List.mem_concat_self⟩

/-- A registration takes the number of the channels that are there. -/
theorem registered_at (htrans : Transition c choice c')
    (htrace : c'.trace = c.trace ++ [.ran u (.register orgId id) (.ok ch)]) :
    ch = (storeOf c).made ∧ (storeOf c').made = (storeOf c).made + 1 := by
  obtain ⟨o, next, -, -, hexec⟩ := htrans.of_ran htrace
  have heffect : Effect u o (storeOf c) (.register orgId id) (.ok ch) (storeOf c') := .of_exec hexec
  exact heffect.registered_eq

theorem registered_lt (hc : Arises c) (h : .ran u (.register orgId id) (.ok ch) ∈ c.trace) :
    ch < (storeOf c).made := by
  refine hc.since h ?_ fun c choice c' _ _ htrans hlt => Nat.lt_of_lt_of_le hlt (made_le htrans)
  intro c choice c' _ _ htrans htrace
  obtain ⟨rfl, hmade⟩ := registered_at htrans htrace
  exact hmade ▸ Nat.lt_succ_self _

theorem registered_unique (hc : Arises c) {u' : ℕ} {orgId' : String} {id' : UInt64}
    (h : .ran u (.register orgId id) (.ok ch) ∈ c.trace)
    (h' : .ran u' (.register orgId' id') (.ok ch) ∈ c.trace) : orgId = orgId' ∧ id = id' := by
  obtain ⟨before, after, hsplit⟩ := List.append_of_mem h
  obtain ⟨before', after', hsplit'⟩ := List.append_of_mem h'
  obtain ⟨d, choice, d', hrec⟩ := hc.recorded hsplit
  obtain ⟨e, choice', e', hrec'⟩ := hc.recorded hsplit'
  have hnew : ∀ {v : ℕ} {org : String} {i : UInt64} {past : List broadcasting.Event} {x y : Moment}
      {choice : Choice broadcasting}, Recorded Fresh unguarded past
        (.ran v (.register org i) (.ok ch)) x choice y c →
      ∀ {u org' i'}, .ran u (.register org' i') (.ok ch) ∉ past := by
    intro v org i past x y choice hrec u org' i' hmem
    have hlt := registered_lt hrec.reachable (hrec.trace ▸ hmem)
    exact absurd (registered_at hrec.step hrec.trace').1 (Nat.ne_of_lt hlt)
  rcases hrec.order hrec' with rfl | hle | hle
  · cases hrec.event_eq hrec'
    exact ⟨rfl, rfl⟩
  · exact absurd (hle.subset List.mem_concat_self) (hnew hrec')
  · exact absurd (hle.subset List.mem_concat_self) (hnew hrec)

/-- An entry of the map after a section was there before and is watched as before, or it has
just been registered. -/
theorem Effect.watched (h : Effect t o s st reply s') (hs : s.Sound)
    {e : (String × UInt64) × Chan} (he : e ∈ s'.subs) (seen : Bool × List (ℕ × Event)) :
    (e ∈ s.subs ∧ (watchRan e.1.1 e.1.2 e.2 seen t ⟨st, reply⟩).1 = seen.1) ∨
      (⟨st, reply⟩ : Ran Section Section.Ret Panic) = ⟨.register e.1.1 e.1.2, .ok e.2⟩ ∧
        (watchRan e.1.1 e.1.2 e.2 seen t ⟨st, reply⟩).1 = true := by
  cases h with
  | now | sendClosed | sent | dropped | runlock | nextId => exact .inl ⟨he, rfl⟩
  | rlock =>
    refine .inl ⟨he, ?_⟩
    simp only [watchRan]
    split <;> rfl
  | @register orgId id hfree =>
    rcases List.mem_cons.mp he with rfl | he
    · exact .inr ⟨rfl, by simp [watchRan]⟩
    · have hold : e ∈ s.subs := (List.mem_filter.mp he).1
      have hne : s.made ≠ e.2 := (Nat.ne_of_lt (hs.lt e hold)).symm
      exact .inl ⟨hold, by simp only [watchRan, if_neg hne]⟩
  | @unsubscribedBefore orgId id hfree hnone =>
    have hother : ¬(orgId = e.1.1 ∧ id = e.1.2) := by
      rintro ⟨rfl, rfl⟩
      exact absurd (List.find?_eq_none.mp hnone e he) (by simp)
    exact .inl ⟨he, by simp only [watchRan, if_neg hother]⟩
  | unsubscribeFails hmem hclosed => exact absurd hclosed (by simp [hs.isOpen _ hmem])
  | @unsubscribed orgId id ch hfree hmem =>
    obtain ⟨hold, hkey⟩ := List.mem_filter.mp he
    have hother : ¬(orgId = e.1.1 ∧ id = e.1.2) := by
      rintro ⟨rfl, rfl⟩
      simp at hkey
    exact .inl ⟨hold, by simp only [watchRan, if_neg hother]⟩
  | closeFails hclosed =>
    obtain ⟨channels, hok, -⟩ := hs.closeAll_ok
    rw [hok] at hclosed
    cases hclosed
  | closed => cases he

theorem entry_watched (hc : Arises c) : ∀ e ∈ (storeOf c).subs,
    (∃ u, .ran u (.register e.1.1 e.1.2) (.ok e.2) ∈ c.trace) ∧
      (watched e.1.1 e.1.2 e.2 c.trace).1 = true := by
  refine hc.invariant ?_ ?_
  · rintro s ⟨bufferSize, rfl⟩ e ⟨⟩
  · intro c choice c' hc ih _ htrans e he
    have hquiet : ∀ {event : broadcasting.Event}, e ∈ (storeOf c).subs →
        (watch e.1.1 e.1.2 e.2 (watched e.1.1 e.1.2 e.2 c.trace) event).1 =
          (watched e.1.1 e.1.2 e.2 c.trace).1 →
        (∃ u, .ran u (.register e.1.1 e.1.2) (.ok e.2) ∈ c.trace ++ [event]) ∧
          (watched e.1.1 e.1.2 e.2 (c.trace ++ [event])).1 = true := by
      intro event hold hflag
      obtain ⟨⟨u, hran⟩, hopen⟩ := ih e hold
      rw [watched_snoc]
      exact ⟨⟨u, List.mem_append_left _ hran⟩, hflag.trans hopen⟩
    cases htrans with
    | start | finish | crash => exact hquiet he rfl
    | environment henv =>
      obtain ⟨_, _, -, hstore⟩ := receive_eq henv
      subst hstore
      exact hquiet he rfl
    | @run t o st next reply store hcall hexec =>
      rcases (Effect.of_exec hexec).watched (sound hc) he (watched e.1.1 e.1.2 e.2 c.trace) with
        ⟨hold, hflag⟩ | ⟨hevent, hflag⟩
      · exact hquiet hold hflag
      · cases hevent
        refine ⟨⟨t, List.mem_concat_self⟩, ?_⟩
        rw [watched_snoc]
        exact hflag

/-- The channels that an emitter goes over have been made, and those who subscribed with them
are being watched when it begins. -/
theorem emitted_of_locked (hc : Arises c) (hlock : .ran t (.rlock evt) (.ok order) ∈ c.trace)
    (hch : ch ∈ order) : ch < (storeOf c).made ∧ ∀ (u : ℕ) (orgId : String) (id : UInt64),
      .ran u (.register orgId id) (.ok ch) ∈ c.trace →
        (t, evt) ∈ emittedTo orgId id ch c.trace := by
  refine hc.since hlock ?_ ?_
  · intro c choice c' hc _ htrans htrace
    obtain ⟨o, next, -, -, hexec⟩ := htrans.of_ran htrace
    obtain ⟨hperm, -⟩ := rlock_eq hexec
    obtain ⟨id', hmem⟩ := mem_channelsOf.mp (hperm.subset hch)
    obtain ⟨⟨u', hreg'⟩, hopen⟩ := entry_watched hc _ hmem
    refine ⟨Nat.lt_of_lt_of_le ((sound hc).lt _ hmem) (made_le htrans), fun u orgId id hreg => ?_⟩
    rw [htrace] at hreg ⊢
    have hreg : .ran u (.register orgId id) (.ok ch) ∈ c.trace := by
      rcases List.mem_append.mp hreg with hreg | hreg
      · exact hreg
      · cases List.mem_singleton.mp hreg
    obtain ⟨rfl, rfl⟩ := registered_unique hc hreg' hreg
    have hadd : emittedTo evt.orgId id' ch (c.trace ++ [.ran t (.rlock evt) (.ok order)]) =
        emittedTo evt.orgId id' ch c.trace ++ [(t, evt)] := by
      rw [emittedTo, watched_snoc]
      simp only [watch, watchRan]
      rw [if_pos ⟨hopen, trivial⟩]
      rfl
    rw [hadd]
    exact List.mem_concat_self
  · rintro c choice c' hc _ htrans ⟨hlt, hwatched⟩
    obtain ⟨event, htrace⟩ := htrans.trace
    refine ⟨Nat.lt_of_lt_of_le hlt (made_le htrans), fun u orgId id hreg => ?_⟩
    rw [htrace] at hreg ⊢
    refine emittedTo_subset _ _ _ _ _ (hwatched u orgId id ?_)
    -- the channel was made before, so it is not being registered now
    rcases List.mem_snoc.mp hreg with hreg | rfl
    · exact hreg
    · exact absurd (registered_at htrans htrace).1 (Nat.ne_of_lt hlt)

theorem nodup_snoc {l : List (ℕ × Event)} (h : (l.map (·.1)).Nodup) (hnew : ∀ evt', (t, evt') ∉ l) :
    ((l ++ [(t, evt)]).map (·.1)).Nodup := by
  rw [List.map_append]
  refine List.nodup_append.mpr ⟨h, List.nodup_singleton _, ?_⟩
  rintro a ha b hb rfl
  obtain ⟨⟨u, evt'⟩, hmem, rfl⟩ := List.mem_map.mp ha
  obtain rfl : u = t := by simpa using hb
  exact hnew evt' hmem

section

variable (hc : Arises c)
include hc

theorem emittedTo_nodup (orgId : String) (id : UInt64) (ch : Chan) :
    ((emittedTo orgId id ch c.trace).map (·.1)).Nodup := by
  refine hc.invariant ?_ ?_
  · intro s _
    exact List.nodup_nil
  · intro c choice c' hc ih hguard htrans
    obtain ⟨event, htrace⟩ := htrans.trace
    rw [htrace, emittedTo, watched_snoc]
    rcases watch_cases orgId id ch (watched orgId id ch c.trace) event with
      hsame | ⟨t, evt, reply, rfl, horg, hmore⟩
    · rw [hsame]
      exact ih
    · rw [hmore]
      refine nodup_snoc ih fun evt' hmem => ?_
      obtain ⟨-, reply', hran⟩ := locked_of_emittedTo hmem
      obtain ⟨o, next, -, hcall, -⟩ := htrans.of_ran htrace
      obtain ⟨op, -, hunlocked, -⟩ := emitting.pre_of_call hc.coherent hcall
      cases hunlocked ⟨.rlock evt', reply'⟩ (mem_ranBy.mpr hran)

/-! ## The order of emissions -/

/-- A call gave the read lock back before another one took it. A call that returns before
another one is made is an example. -/
def returnedBefore (trace : List broadcasting.Event) (a b : ℕ × Event) : Prop :=
  ∃ past, past <+: trace ∧ (∃ reply, .ran a.1 .runlock reply ∈ past) ∧
    ∀ evt reply, .ran b.1 (.rlock evt) reply ∉ past

theorem locked_of_unlocked {past : List broadcasting.Event}
    (hpast : past <+: c.trace) {reply : Except Panic Unit}
    (hran : .ran t .runlock reply ∈ past) : ∃ evt reply', .ran t (.rlock evt) reply' ∈ past := by
  obtain ⟨c₀, hc₀, rfl⟩ := hc.exists_of_isPrefix hpast
  obtain ⟨op, hstart⟩ := hc₀.coherent.ran_started _ _ _ hran
  obtain ⟨before, hbefore, -, evt, order, hlocked, -⟩ :=
    emitting.pre_of_ran hc₀.coherent hstart hran
  exact ⟨evt, .ok order, mem_ranBy.mp (hbefore.subset hlocked)⟩

theorem returnedBefore_irrefl (a : ℕ × Event) : ¬returnedBefore c.trace a a := by
  rintro ⟨past, hpast, ⟨reply, hran⟩, hnever⟩
  obtain ⟨evt, reply', hlock⟩ := locked_of_unlocked hc hpast hran
  exact hnever evt reply' hlock

theorem returnedBefore_trans {a b d : ℕ × Event} (hab : returnedBefore c.trace a b)
    (hbd : returnedBefore c.trace b d) : returnedBefore c.trace a d := by
  obtain ⟨past, hpast, ⟨reply, ha⟩, hb⟩ := hab
  obtain ⟨past', hpast', ⟨reply', hb'⟩, hd⟩ := hbd
  rcases List.prefix_or_prefix_of_prefix hpast hpast' with hle | hle
  · exact ⟨past', hpast', ⟨reply, hle.subset ha⟩, hd⟩
  · obtain ⟨evt, reply'', hlock⟩ := locked_of_unlocked hc hpast' hb'
    exact absurd (hle.subset hlock) (hb evt reply'')

/-- What an emitter has put into a channel is the event it took the lock for, and the channel
is one that it goes over. -/
theorem locked_of_sent (h : (t, evt) ∈ sent ch c.trace) :
    .ran t (.send ch evt) (.ok true) ∈ c.trace ∧
      ∃ order : List Chan, .ran t (.rlock evt) (.ok order) ∈ c.trace ∧ ch ∈ order := by
  obtain ⟨st, reply, hran, hsent⟩ := mem_collect.mp h
  cases sentOn_eq hsent
  obtain ⟨op, hstart⟩ := hc.coherent.ran_started _ _ _ hran
  obtain ⟨before, hbefore, -, order, hlocked, hprefix⟩ :=
    emitting.pre_of_ran hc.coherent hstart hran
  refine ⟨hran, order, mem_ranBy.mp (hbefore.subset hlocked.1), ?_⟩
  exact hprefix.subset List.mem_concat_self

theorem delivered_eq (ch : Chan) :
    ((storeOf c).channels ch).delivered = (sent ch c.trace).map (·.2) := by
  refine hc.invariant ?_ ?_
  · rintro s ⟨bufferSize, rfl⟩
    rfl
  · intro c choice c' hc ih _ htrans
    have hquiet : ∀ event : broadcasting.Event, (∀ t st reply, event ≠ .ran t st reply) →
        sent ch (c.trace ++ [event]) = sent ch c.trace :=
      fun event hevent => collect_snoc_of_none fun t st reply heq => absurd heq (hevent t st reply)
    cases htrans with
    | start | finish | crash =>
      rw [hquiet _ (by simp)]
      exact ih
    | environment henv =>
      rw [hquiet _ (by simp)]
      exact (receive_delivered henv ch).trans ih
    | @run t o st next reply store hcall hexec =>
      rw [sent_ran]
      rcases (Effect.of_exec hexec).delivered (sound hc) ch with ⟨rfl, hempty, hnone⟩ | hmore
      · -- nothing was put into a channel that was not made
        have hnothing : sent (storeOf c).made c.trace = [] := by
          refine List.eq_nil_iff_forall_not_mem.mpr fun x hx => ?_
          obtain ⟨-, order, hlock, hch⟩ := locked_of_sent hc hx
          exact Nat.lt_irrefl _ (emitted_of_locked hc hlock hch).1
        rw [hnone, hnothing]
        exact hempty
      · refine hmore.trans ?_
        rw [ih]
        cases sentOn ch ⟨st, reply⟩ <;> simp

/-- A step puts one more event into a channel, by a call that has not done so before and still
holds the lock, or none. -/
theorem sent_cases (htrans : Transition c choice c') (ch : Chan) :
    sent ch c'.trace = sent ch c.trace ∨ ∃ t evt, sent ch c'.trace = sent ch c.trace ++ [(t, evt)] ∧
      (∀ evt', (t, evt') ∉ sent ch c.trace) ∧ ∀ reply, .ran t .runlock reply ∉ c'.trace := by
  cases htrans with
  | start | finish | crash | environment => exact .inl (collect_snoc_of_none (by rintro _ _ _ ⟨⟩))
  | @run t o st next reply store hcall hexec =>
    rw [sent_ran]
    cases hsent : sentOn ch ⟨st, reply⟩ with
    | none => exact .inl (List.append_nil _)
    | some evt =>
      cases sentOn_eq hsent
      obtain ⟨order, -, -, hheld, hfirst, -⟩ := sending hc hcall
      refine .inr ⟨t, evt, rfl, fun evt' hmem => hfirst ?_, fun reply hmem => ?_⟩
      · obtain ⟨hran, -⟩ := locked_of_sent hc hmem
        exact List.mem_filterMap.mpr ⟨_, mem_ranBy.mpr hran, rfl⟩
      · rcases List.mem_append.mp hmem with hold | hnew
        · exact hheld reply hold
        · cases List.mem_singleton.mp hnew

theorem sent_nodup (ch : Chan) : ((sent ch c.trace).map (·.1)).Nodup := by
  refine hc.invariant ?_ ?_
  · intro s _
    exact List.nodup_nil
  · intro c choice c' hc ih hguard htrans
    rcases sent_cases hc htrans ch with hsame | ⟨t, evt, hmore, hfirst, -⟩
    · rw [hsame]
      exact ih
    · rw [hmore]
      exact nodup_snoc ih hfirst

theorem sent_inOrder (ch : Chan) : InOrder (returnedBefore c.trace) (sent ch c.trace) := by
  refine hc.invariant ?_ ?_
  · intro s _
    exact List.Pairwise.nil
  · intro c choice c' hc ih hguard htrans
    have hold : InOrder (returnedBefore c'.trace) (sent ch c.trace) := by
      refine List.Pairwise.imp_of_mem ?_ ih
      rintro ⟨t, evt⟩ b hmem - hno ⟨past, hpast, hunlocked, hnever⟩
      obtain ⟨-, order, hlock, -⟩ := locked_of_sent hc hmem
      obtain ⟨event, htrace⟩ := htrans.trace
      rw [htrace] at hpast
      rcases List.prefix_concat_iff.mp hpast with rfl | hpast
      · exact hnever evt _ (List.mem_append_left _ hlock)
      · exact hno ⟨past, hpast, hunlocked, hnever⟩
    rcases sent_cases hc htrans ch with hsame | ⟨t, evt, hmore, -, hheld⟩
    · rw [hsame]
      exact hold
    · rw [hmore]
      refine List.pairwise_append.mpr ⟨hold, List.pairwise_singleton _ _, ?_⟩
      intro a ha b hb
      obtain rfl := List.mem_singleton.mp hb
      rintro ⟨past, hpast, ⟨reply, hran⟩, -⟩
      exact hheld reply (hpast.subset hran)

end

/-! ## The result -/

/-- Whatever calls overlap, no section panics: nothing is sent on a closed channel and no channel is
closed twice. A subscriber gets a part of the events emitted for its organisation while it is
subscribed, in an order of their emission. A subscription has begun when `Subscribe` returns, and
has ended when its unsubscribe function or `Close` returns. -/
theorem fan_out_safe (hc : Arises c) :
    (∀ (t : ℕ) (st : Section) (p : Panic), .ran t st (.error p) ∉ c.trace) ∧
    (∀ t op answer, .started t op ∈ c.trace → .returned t (.ok answer) ∈ c.trace →
      HasRun (ranBy t c.trace) op answer) ∧
    ∀ (u : ℕ) (orgId : String) (id : UInt64) (ch : Chan),
      .ran u (.register orgId id) (.ok ch) ∈ c.trace →
      (∀ t evt, (t, evt) ∈ emittedTo orgId id ch c.trace → evt.orgId = orgId ∧
        ∃ original, .started t (.emit original) ∈ c.trace ∧ Stamped original evt) ∧
      ∃ order, order.Perm (emittedTo orgId id ch c.trace) ∧ InOrder (returnedBefore c.trace) order ∧
        ((storeOf c).channels ch).delivered.Sublist (order.map (·.2)) := by
  refine ⟨no_panic hc, fun t op answer hstart hreturned => ?_,
    fun u orgId id ch hreg => ⟨fun t evt hmem => ?_, ?_⟩⟩
  · exact emitting.post_of_returned hc.coherent hstart hreturned answer rfl
  · obtain ⟨horg, reply, hlock⟩ := locked_of_emittedTo hmem
    obtain ⟨op, hstart⟩ := hc.coherent.ran_started _ _ _ hlock
    obtain ⟨before, -, -, -, original, rfl, hstamped⟩ :=
      emitting.pre_of_ran hc.coherent hstart hlock
    exact ⟨horg, original, hstart, hstamped⟩
  · have hsub : sent ch c.trace ⊆ emittedTo orgId id ch c.trace := by
      rintro ⟨t, evt⟩ hmem
      obtain ⟨-, order, hlock, hch⟩ := locked_of_sent hc hmem
      exact (emitted_of_locked hc hlock hch).2 u orgId id hreg
    obtain ⟨order, hperm, horder, hsublist⟩ := (sent_inOrder hc ch).exists_extension
      (sent_nodup hc ch).of_map hsub (emittedTo_nodup hc orgId id ch).of_map
      (fun a _ b _ d _ => returnedBefore_trans hc) fun a _ => returnedBefore_irrefl hc a
    refine ⟨order, hperm, horder, ?_⟩
    rw [delivered_eq hc ch]
    exact hsublist.map _

/-- An event of an organisation. -/
def acmeEvent (payload : UInt8) : Event where
  orgId := "acme"
  timestamp := some 0
  payload := [payload]

/-- A dashboard subscribes, two events are emitted at the same time while there is room for
one, and it is closed in every way there is. A third event comes too late. -/
def shortVisit : List (Choice broadcasting) :=
  [.start (.subscribe "acme"), .run 0 {}, .run 0 {}, .finish 0,
    .start (.emit (acmeEvent 1)), .start (.emit (acmeEvent 2)),
    .run 1 { order := [0] }, .run 2 { order := [0] }, .run 2 {}, .run 1 {}, .run 1 {}, .run 2 {},
    .environment (0 : Chan), .start (.unsubscribe "acme" 1), .run 3 {}, .finish 3, .start .close,
    .run 4 {}, .finish 4, .start (.unsubscribe "acme" 1), .run 5 {}, .finish 5,
    .start (.emit (acmeEvent 3)), .run 6 {}, .run 6 {}, .finish 6]

/-- The subscriptions that a section makes. -/
def registration : Ran Section Section.Ret Panic → Option (String × UInt64 × Chan)
  | ⟨.register orgId id, .ok ch⟩ => some (orgId, id, ch)
  | _ => none

theorem registration_eq
    (h : registration x = some (orgId, id, ch)) : x = ⟨.register orgId id, .ok ch⟩ := by
  unfold registration at h
  split at h
  · cases h
    rfl
  · cases h

/-- The dashboard got the second event, which is one of the two that were emitted for it. -/
theorem shortVisit_safe :
    ∃ c : Moment, Arises c ∧ ((storeOf c).channels 0).delivered = [acmeEvent 2] ∧
      emittedTo "acme" 1 0 c.trace = [(1, acmeEvent 1), (2, acmeEvent 2)] ∧
      ∃ order : List (ℕ × Event), order.Perm (emittedTo "acme" 1 0 c.trace) ∧
        ((storeOf c).channels 0).delivered.Sublist (order.map (·.2)) := by
  have hrun : (runGuarded unguarded (Config.initial (M := broadcasting) (newBroadcaster 1))
      shortVisit).any (fun c =>
        (0, "acme", 1, 0) ∈ collect (M := broadcasting) registration c.trace ∧
        ((storeOf c).channels 0).delivered = [acmeEvent 2] ∧
        emittedTo "acme" 1 0 c.trace = [(1, acmeEvent 1), (2, acmeEvent 2)]) = true := by
    decide +kernel
  have hfresh : Fresh (newBroadcaster 1) := ⟨1, rfl⟩
  obtain ⟨c, hc, htest⟩ := exists_reachable_of_any hfresh hrun
  obtain ⟨hreg, hdelivered, hemitted⟩ := of_decide_eq_true htest
  obtain ⟨st, reply, hran, hst⟩ := mem_collect.mp hreg
  cases registration_eq hst
  obtain ⟨-, order, hperm, -, hsub⟩ := (fan_out_safe hc).2.2 0 "acme" 1 0 hran
  exact ⟨c, hc, hdelivered, hemitted, order, hperm, hsub⟩

end UndoLog.Proxy.Sse
