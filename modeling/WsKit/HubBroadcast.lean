import WsKit.Base.Listening
import WsKit.Base.Machine
import WsKit.Hub

/-!
# Broadcasting from a hub

The hub's channel with its receivers, which subscribe, read and are dropped at any time, while
messages are broadcast in either way and connections are counted. The implementation of the channel
is a parameter.
-/

namespace WsKit

open Base

namespace BroadcastHub

variable {α : Type*}

/-- A hub with explicit capacity tracking. -/
def withCapacity [ChannelApi α] (capacity : UInt64) : Option (BroadcastHub α) := new capacity

/-- Channel capacity, which the hub does not know. -/
def capacity (_ : BroadcastHub α) : ℕ := 0

/-- Current number of tracked connections. -/
def getConnectionCount (hub : BroadcastHub α) : UInt64 := hub.connectionCount

/-- Number of active receivers. -/
def receiverCount [ChannelApi α] (hub : BroadcastHub α) : ℕ := hub.tx.receiverCount

/-- Subscribe to the broadcast channel. -/
def subscribe (hub : BroadcastHub α) : ReceiverId × BroadcastHub α :=
  (hub.tx.subscribe.1, { hub with tx := hub.tx.subscribe.2 })

/-- Drop a receiver. -/
def dropReceiver (hub : BroadcastHub α) (rx : ReceiverId) : BroadcastHub α :=
  { hub with tx := hub.tx.dropReceiver rx }

/-- Broadcast a message to all subscribers and return their number, or fail without any. -/
def broadcast [ChannelApi α] (hub : BroadcastHub α) (message : α) : Outcome WsError ℕ × BroadcastHub α :=
  match hub.tx.send message with
  | (some n, tx) => (.ok n, { hub with tx })
  | (none, tx) => (.error (.failed .broadcastFull), { hub with tx })

/-- Broadcast a message and return the number of subscribers, which may be zero. -/
def tryBroadcast [ChannelApi α] (hub : BroadcastHub α) (message : α) : ℕ × BroadcastHub α :=
  ((hub.tx.send message).1.getD 0, { hub with tx := (hub.tx.send message).2 })

/-- A hub in use: how many messages each receiver has read or missed. -/
structure InUse (α : Type*) where
  hub : BroadcastHub α
  passed : ReceiverId → ℕ

/-- The hub's channel and its receivers. -/
def InUse.listening (s : InUse α) : Listening α := ⟨s.hub.tx, s.passed⟩

/-- What is done with a hub. -/
inductive Use (α : Type*) where
  | subscribe
  | dropReceiver (rx : ReceiverId)
  | broadcast (message : α)
  | tryBroadcast (message : α)
  | recv (rx : ReceiverId)
  | incrementConnections (max : Option UInt64)
  | decrementConnections

/-- What is seen of it. -/
inductive Seen (α : Type*) where
  | subscribed (rx : ReceiverId)
  | dropped (rx : ReceiverId)
  | broadcast (message : α) (result : Outcome WsError ℕ)
  | tried (message : α) (reached : ℕ)
  | received (rx : ReceiverId) (answer : Received α)
  | counted (call : Returned)

/-- The operation on the channel. -/
def Use.onChannel : Use α → Option (Listening.Op α)
  | .subscribe => some .subscribe
  | .dropReceiver rx => some (.dropReceiver rx)
  | .broadcast message => some (.send message)
  | .tryBroadcast message => some (.send message)
  | .recv rx => some (.recv rx)
  | .incrementConnections _ => none
  | .decrementConnections => none

/-- What is seen of the channel; nobody reached is a failed send. -/
def Seen.onChannel : Seen α → Option (Listening.Obs α)
  | .subscribed rx => some (.subscribed rx)
  | .dropped rx => some (.dropped rx)
  | .broadcast message result => some (.sent message result.toOption)
  | .tried message reached => some (.sent message (if reached = 0 then none else some reached))
  | .received rx answer => some (.received rx answer)
  | .counted _ => none

/-- What is seen of the channel in a trace. -/
def onChannel (tr : List (Seen α)) : List (Listening.Obs α) := tr.filterMap Seen.onChannel

/-- The receivers that a call of either kind has reached. -/
def Seen.delivered : Seen α → ℕ
  | .broadcast _ (.ok n) => n
  | .tried _ n => n
  | _ => 0

/-- A hub with its receivers, one call after another. -/
def machine (α : Type*) [ChannelApi α] (overflowChecks : Bool) :
    Machine (InUse α) (Use α) (Seen α) where
  step s
    | .subscribe =>
      let made := s.hub.subscribe
      some ({ s with hub := made.2 }, [.subscribed made.1])
    | .dropReceiver rx =>
      if rx ∈ s.hub.tx.receivers then some ({ s with hub := s.hub.dropReceiver rx }, [.dropped rx])
      else none
    | .broadcast message =>
      let sent := s.hub.broadcast message
      some ({ s with hub := sent.2 }, [.broadcast message sent.1])
    | .tryBroadcast message =>
      let sent := s.hub.tryBroadcast message
      some ({ s with hub := sent.2 }, [.tried message sent.1])
    | .recv rx => (s.listening.recv rx).map fun got =>
        ({ s with passed := got.2.passed }, [.received rx got.1])
    | .incrementConnections max =>
      let called := s.hub.incrementConnections overflowChecks max
      some ({ s with hub := called.2 }, [.counted (.incremented called.1)])
    | .decrementConnections =>
      let called := s.hub.decrementConnections
      some ({ s with hub := called.2 }, [.counted (.decremented called.1)])

/-- A broadcast is a send on the hub's channel, and fails when nobody was reached. -/
theorem broadcast_eq [ChannelApi α] (hub : BroadcastHub α) (message : α) :
    hub.broadcast message =
      ((hub.tx.send message).1.elim (.error (.failed .broadcastFull)) .ok,
        { hub with tx := (hub.tx.send message).2 }) := by
  rw [broadcast]
  cases hsend : hub.tx.send message with
  | mk reached tx => cases reached <;> rfl

/-- A send that succeeds reaches somebody. -/
theorem send_ne_zero [ChannelApi α] {tx : Channel α} {message : α} {n : ℕ} (h : (tx.send message).1 = some n) :
    n ≠ 0 := by
  obtain ⟨-, hsend⟩ | ⟨hlive, hsend⟩ := tx.send_cases message
  · rw [hsend] at h
    cases h
  · rw [hsend] at h
    cases h
    exact hlive

/-- Every step of a hub in use is a move of its channel. -/
theorem moves_of_step [ChannelApi α] {overflowChecks : Bool} {s s' : InUse α} {use : Use α}
    {out : List (Seen α)} {G : Listening.Op α → Prop} (hG : ∀ op ∈ use.onChannel, G op)
    (hstep : (machine α overflowChecks).step s use = some (s', out)) :
    Listening.Moves G s.listening s'.listening (onChannel out) := by
  cases use with
  | subscribe =>
    obtain ⟨rfl, rfl⟩ := Prod.mk.inj (Option.some.inj hstep)
    exact .op (hG .subscribe rfl) rfl
  | dropReceiver rx =>
    obtain ⟨hrx, heq⟩ := Option.ite_none_right_eq_some.1 hstep
    obtain ⟨rfl, rfl⟩ := Prod.mk.inj (Option.some.inj heq)
    exact .op (hG (.dropReceiver rx) rfl) (if_pos hrx)
  | broadcast message =>
    obtain ⟨rfl, rfl⟩ := Prod.mk.inj (Option.some.inj hstep)
    refine .op (hG (.send message) rfl) ?_
    rw [broadcast_eq]
    cases hsend : s.hub.tx.send message with
    | mk reached tx =>
      cases reached <;> simp [Listening.step, InUse.listening, hsend, onChannel, Seen.onChannel,
        Except.toOption]
  | tryBroadcast message =>
    obtain ⟨rfl, rfl⟩ := Prod.mk.inj (Option.some.inj hstep)
    refine .op (hG (.send message) rfl) ?_
    have hne := @send_ne_zero α _ s.hub.tx message
    rw [tryBroadcast]
    cases hsend : s.hub.tx.send message with
    | mk reached tx =>
      rw [hsend] at hne
      cases reached with
      | none => simp [Listening.step, InUse.listening, hsend, onChannel, Seen.onChannel]
      | some n => simp [Listening.step, InUse.listening, hsend, onChannel, Seen.onChannel, hne rfl]
  | recv rx =>
    obtain ⟨⟨got, next⟩, hrecv, heq⟩ := Option.map_eq_some_iff.1 hstep
    obtain ⟨rfl, rfl⟩ := Prod.mk.inj heq
    refine .op (hG (.recv rx) rfl) ?_
    obtain ⟨_, _, hgot⟩ := Option.map_eq_some_iff.1 hrecv
    obtain ⟨rfl, rfl⟩ := Prod.mk.inj hgot
    rw [Listening.step, hrecv]
    rfl
  | incrementConnections max =>
    obtain ⟨rfl, rfl⟩ := Prod.mk.inj (Option.some.inj hstep)
    exact .stay
  | decrementConnections =>
    obtain ⟨rfl, rfl⟩ := Prod.mk.inj (Option.some.inj hstep)
    exact .stay

/-- The receivers reached are those that the channel's sends have reached. -/
theorem reached_onChannel (tr : List (Seen α)) :
    Listening.reached (onChannel tr) = (tr.map Seen.delivered).sum := by
  induction tr with
  | nil => rfl
  | cons o tr ih =>
    have hhead : (o.onChannel.bind Listening.Obs.reached).getD 0 = o.delivered := by
      cases o with
      | broadcast message result => cases result <;> rfl
      | tried message n => cases n <;> rfl
      | subscribed rx => rfl
      | dropped rx => rfl
      | received rx answer => rfl
      | counted call => rfl
    rw [List.map_cons, List.sum_cons, ← ih, ← hhead, onChannel, List.filterMap_cons]
    cases o.onChannel with
    | none => exact (Nat.zero_add _).symm
    | some seen => exact Listening.reached_cons seen _

/-- A hub whose receivers have read nothing. -/
def InUse.start (hub : BroadcastHub α) : InUse α := ⟨hub, fun _ => 0⟩

/-- Nobody broadcasts while the receiver has as many messages unread as the hub's capacity. -/
def KeepsUp (capacity : UInt64) (rx : ReceiverId) (s : InUse α) (_ : List (Seen α)) (use : Use α) :
    Prop :=
  ∀ op ∈ use.onChannel, Listening.KeepsUp capacity.toNat rx s.listening op

instance (capacity : UInt64) (rx : ReceiverId) (s : InUse α) (tr : List (Seen α)) (use : Use α) :
    Decidable (KeepsUp capacity rx s tr use) :=
  inferInstanceAs (Decidable (∀ op ∈ use.onChannel, _))

/-- A new hub has a new channel. -/
theorem listening_of_new [ChannelApi α] {capacity : UInt64} {hub : BroadcastHub α} (h : new capacity = some hub) :
    (InUse.start hub).listening = Listening.start capacity.toNat := by
  obtain ⟨tx, htx, rfl⟩ := Option.map_eq_some_iff.1 h
  obtain ⟨-, heq⟩ := Option.ite_none_right_eq_some.1 htx
  rw [← Option.some.inj heq]
  rfl

/-- In every run of a hub, whichever way messages are broadcast: what a receiver was told accounts,
in order and without repetition, for a beginning of what was broadcast while it lived. All calls
together have reached as many receivers as messages were read, missed and left unread. And a
receiver that never has more unread than the capacity reads every message. -/
theorem broadcast_accounted [ChannelApi α] (overflowChecks : Bool) {capacity : UInt64}
    {hub : BroadcastHub α} (hnew : new capacity = some hub)
    {uses : List (Use α)} {s : InUse α} {tr : List (Seen α)}
    (hrun : (machine α overflowChecks).run uses (.start hub, []) = some (s, tr)) :
    (∀ rx, s.passed rx ≤ (Listening.offered (onChannel tr) rx).length ∧
      Listening.Accounts (Listening.reads (onChannel tr) rx)
        ((Listening.offered (onChannel tr) rx).take (s.passed rx))) ∧
    ∑ rx ∈ Finset.range s.hub.tx.created,
      ((Listening.messages (Listening.reads (onChannel tr) rx)).length +
        Listening.missed (Listening.reads (onChannel tr) rx) +
        ((Listening.offered (onChannel tr) rx).length - s.passed rx)) =
      (tr.map Seen.delivered).sum ∧
    ∀ rx, (machine α overflowChecks).Meets (KeepsUp capacity rx) uses (.start hub, []) →
      Listening.messages (Listening.reads (onChannel tr) rx) =
        (Listening.offered (onChannel tr) rx).take (s.passed rx) := by
  have hstart := listening_of_new hnew
  have haccounted : Listening.Accounted s.listening (onChannel tr) := by
    refine Machine.run_induct_all (P := fun s tr => Listening.Accounted s.listening (onChannel tr))
      (fun s tr use s' out h hstep => ?_) hrun ?_
    · have hmoves := moves_of_step (G := fun _ => True) (fun _ _ => trivial) hstep
      rw [onChannel, List.filterMap_append]
      exact h.moves hmoves
    · rw [hstart]
      exact Listening.accounted_start _
  refine ⟨fun rx => ⟨haccounted.passed rx, haccounted.accounts rx⟩, ?_, fun rx hkeeps => ?_⟩
  · rw [← reached_onChannel]
    exact haccounted.total_eq
  · have hupToDate : Listening.UpToDate capacity.toNat rx s.listening (onChannel tr) := by
      refine Machine.run_induct
        (P := fun s tr => Listening.UpToDate capacity.toNat rx s.listening (onChannel tr))
        (fun s tr use s' out h hkeeps hstep => ?_) hrun hkeeps ?_
      · rw [onChannel, List.filterMap_append]
        exact h.moves (moves_of_step hkeeps hstep)
      · rw [hstart]
        exact Listening.upToDate_start _ rx
    exact hupToDate.messages_eq

/-- Five messages to a hub of capacity two, whose receiver then reads on. -/
def slowReceiver : List (Use UInt32) :=
  [.subscribe, .tryBroadcast 0, .broadcast 1, .tryBroadcast 2, .tryBroadcast 3, .tryBroadcast 4,
    .recv 0, .recv 0, .recv 0, .recv 0]

/-- The slow receiver has missed three messages and reads the last two. -/
theorem broadcast_accounted_slowReceiver : ∃ hub s tr, new 2 = some hub ∧
    (machine UInt32 true).run slowReceiver (.start hub, []) = some (s, tr) ∧
    Listening.reads (onChannel tr) 0 = [.lagged 3, .message 3, .message 4, .empty] ∧
    Listening.Accounts (Listening.reads (onChannel tr) 0)
      ((Listening.offered (onChannel tr) 0).take (s.passed 0)) := by
  have hseen : ((machine UInt32 true).run slowReceiver (.start ⟨⟨2, 0, ∅, []⟩, 0⟩, [])).map
      (fun c => Listening.reads (onChannel c.2) 0) =
        some [.lagged 3, .message 3, .message 4, .empty] := by decide
  obtain ⟨⟨s, tr⟩, hrun, hreads⟩ := Option.map_eq_some_iff.1 hseen
  have hnew : new 2 = some (⟨⟨2, 0, ∅, []⟩, 0⟩ : BroadcastHub UInt32) := rfl
  have haccounted := broadcast_accounted true hnew hrun
  exact ⟨_, s, tr, hnew, hrun, hreads, (haccounted.1 0).2⟩

end BroadcastHub

end WsKit
