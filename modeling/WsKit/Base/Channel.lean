import Mathlib.Algebra.Ring.Nat
import Mathlib.Data.Nat.Log
import WsKit.Base.Map

/-!
# Broadcast channels

A channel is known by what was done with it: the messages that went to receivers, and for every live
receiver the position at which it subscribed. What a channel answers is up to its implementation,
which is a parameter together with what is documented of it; the implementation by a ring is an
instance.
-/

namespace Base

/-- Names of receivers. -/
abbrev ReceiverId := ℕ

/-- A broadcast channel for messages `α`: how many receivers there were, those that live, and what was
sent to receivers. -/
structure Channel (α : Type*) where
  capacity : ℕ
  created : ℕ
  receivers : Map ReceiverId ℕ
  sent : List α

/-- What a receiver gets that asks for its next message without waiting. -/
inductive Received (α : Type*) where
  | message (message : α)
  | lagged (missed : ℕ)
  | empty
  deriving DecidableEq

/-- An implementation of broadcast channels, and what is documented of it. A channel holds on to its
latest messages, at least as many as its capacity; a receiver that asks for an older one is told how
many it has missed, and goes on with the oldest one that is held. -/
class ChannelApi (α : Type*) where
  /-- The largest capacity that a channel can be made with. -/
  maxCapacity : ℕ
  /-- Whether a channel can be made; otherwise the call panics. -/
  accepts : ℕ → Bool
  /-- The number of messages that a channel of a capacity holds. -/
  held : ℕ → ℕ
  /-- The number of live receivers. -/
  receiverCount : Channel α → ℕ
  /-- The number of receivers that a message is sent to, or none if the send fails. -/
  reached : Channel α → α → Option ℕ
  /-- What a receiver is told that has these messages unread, and how many of them it passes. -/
  next : Channel α → List α → Received α × ℕ
  accepts_iff : ∀ capacity, accepts capacity = true ↔ 0 < capacity ∧ capacity ≤ maxCapacity
  le_held : ∀ capacity, capacity ≤ held capacity
  receiverCount_eq : ∀ tx, receiverCount tx = Map.size tx.receivers
  reached_eq_none : ∀ tx message, receiverCount tx = 0 → reached tx message = none
  reached_eq_some : ∀ tx message, receiverCount tx ≠ 0 →
    reached tx message = some (receiverCount tx)
  next_nil : ∀ tx, next tx [] = (.empty, 0)
  next_cons : ∀ tx message rest, (message :: rest).length ≤ held tx.capacity →
    next tx (message :: rest) = (.message message, 1)
  next_lagged : ∀ tx unread, held tx.capacity < unread.length →
    next tx unread = (.lagged (unread.length - held tx.capacity), unread.length - held tx.capacity)

/-- A ring of slots, as many as the next power of two, which sends overwrite in turn. Half of a 64-bit
`usize` is the largest capacity; that there may be no memory for it is left out. -/
instance ring (α : Type*) : ChannelApi α where
  maxCapacity := 2 ^ 63 - 1
  accepts capacity := decide (0 < capacity ∧ capacity ≤ 2 ^ 63 - 1)
  held capacity := 2 ^ Nat.clog 2 capacity
  receiverCount tx := Map.size tx.receivers
  reached tx _ := if Map.size tx.receivers = 0 then none else some (Map.size tx.receivers)
  next tx unread :=
    if 2 ^ Nat.clog 2 tx.capacity < unread.length then
      (.lagged (unread.length - 2 ^ Nat.clog 2 tx.capacity),
        unread.length - 2 ^ Nat.clog 2 tx.capacity)
    else
      match unread with
      | [] => (.empty, 0)
      | message :: _ => (.message message, 1)
  accepts_iff _ := decide_eq_true_iff
  le_held := Nat.le_pow_clog Nat.one_lt_two
  receiverCount_eq _ := rfl
  reached_eq_none _ _ h := if_pos h
  reached_eq_some _ _ h := if_neg h
  next_nil _ := if_neg (Nat.not_lt_zero _)
  next_cons _ _ _ h := if_neg (Nat.not_lt.2 h)
  next_lagged _ _ h := if_pos h

/-- The capacities that a channel for messages `α` can be made with. -/
def AcceptedCapacity (α : Type*) [ChannelApi α] (capacity : ℕ) : Prop :=
  0 < capacity ∧ capacity ≤ ChannelApi.maxCapacity α

instance (α : Type*) [ChannelApi α] (capacity : ℕ) : Decidable (AcceptedCapacity α capacity) :=
  inferInstanceAs (Decidable (_ ∧ _))

namespace Channel

variable {α : Type*}

/-- A new channel; a capacity that is not accepted panics. -/
def channel [ChannelApi α] (capacity : ℕ) : Option (Channel α) :=
  if ChannelApi.accepts α capacity then some ⟨capacity, 0, ∅, []⟩ else none

/-- The number of live receivers. -/
def receiverCount [ChannelApi α] (tx : Channel α) : ℕ := ChannelApi.receiverCount tx

/-- Send a message to all live receivers and return their number, unless there are none. -/
def send [ChannelApi α] (tx : Channel α) (message : α) : Option ℕ × Channel α :=
  match ChannelApi.reached tx message with
  | some n => (some n, { tx with sent := tx.sent ++ [message] })
  | none => (none, tx)

/-- A new receiver, which gets every message sent from now on. -/
def subscribe (tx : Channel α) : ReceiverId × Channel α :=
  (tx.created, { tx with
    created := tx.created + 1
    receivers := tx.receivers.insert tx.created tx.sent.length })

/-- Drop a receiver. -/
def dropReceiver (tx : Channel α) (rx : ReceiverId) : Channel α :=
  { tx with receivers := tx.receivers.erase rx }

/-- The messages that were sent to a live receiver since it subscribed. Whether it has read them, and
whether the channel still holds them, is not said. -/
def sentSince (tx : Channel α) (rx : ReceiverId) : Option (List α) :=
  (tx.receivers.lookup rx).map fun start => tx.sent.drop start

/-- Receivers were created by the channel, at a position that it has reached. -/
def Valid (tx : Channel α) : Prop :=
  ∀ rx start, tx.receivers.lookup rx = some start → rx < tx.created ∧ start ≤ tx.sent.length

/-- A channel without receivers is valid. -/
theorem valid_mk_empty (capacity created : ℕ) (sent : List α) :
    Valid ⟨capacity, created, ∅, sent⟩ := by
  intro rx start hlookup
  cases hlookup

/-- Subscribing keeps a channel valid. -/
theorem Valid.subscribe {tx : Channel α} (h : tx.Valid) : tx.subscribe.2.Valid := by
  intro rx start hlookup
  change AList.lookup rx (tx.receivers.insert tx.created tx.sent.length) = some start at hlookup
  change rx < tx.created + 1 ∧ start ≤ tx.sent.length
  rw [Map.lookup_insert] at hlookup
  split at hlookup
  · next heq =>
    rw [heq, ← Option.some.inj hlookup]
    exact ⟨Nat.lt_succ_self _, Nat.le_refl _⟩
  · obtain ⟨hrx, hstart⟩ := h rx start hlookup
    exact ⟨Nat.lt_succ_of_lt hrx, hstart⟩

/-- Dropping a receiver keeps a channel valid. -/
theorem Valid.dropReceiver {tx : Channel α} (h : tx.Valid) (rx : ReceiverId) :
    (tx.dropReceiver rx).Valid := by
  intro rx' start hlookup
  change AList.lookup rx' (tx.receivers.erase rx) = some start at hlookup
  exact h rx' start (Map.lookup_erase_eq_some_iff.1 hlookup).2

/-- Sending keeps a channel valid. -/
theorem Valid.append {tx : Channel α} (h : tx.Valid) (message : α) :
    Valid { tx with sent := tx.sent ++ [message] } := by
  intro rx start hlookup
  obtain ⟨hrx, hstart⟩ := h rx start hlookup
  rw [List.length_append]
  exact ⟨hrx, Nat.le_add_right_of_le hstart⟩

/-- A new receiver is none of the live ones. -/
theorem Valid.created_notMem {tx : Channel α} (h : tx.Valid) : tx.created ∉ tx.receivers := by
  intro hmem
  obtain ⟨start, hlookup⟩ := Map.mem_iff_lookup.1 hmem
  exact Nat.lt_irrefl _ (h _ start hlookup).1

/-- A message sent is the last one sent to every live receiver. -/
theorem Valid.sentSince_append {tx : Channel α} (h : tx.Valid) (message : α) {rx : ReceiverId}
    {before : List α} (hbefore : tx.sentSince rx = some before) :
    sentSince { tx with sent := tx.sent ++ [message] } rx = some (before ++ [message]) := by
  obtain ⟨start, hlookup, rfl⟩ := Option.map_eq_some_iff.1 hbefore
  refine Option.map_eq_some_iff.2 ⟨start, hlookup, ?_⟩
  exact List.drop_append_of_le_length (h rx start hlookup).2

section Api

variable [ChannelApi α] {tx : Channel α}

/-- As many receivers are counted as live. -/
theorem receiverCount_eq (tx : Channel α) : tx.receiverCount = Map.size tx.receivers :=
  ChannelApi.receiverCount_eq tx

/-- A live receiver is counted. -/
theorem receiverCount_ne_zero_of_mem {rx : ReceiverId} (h : rx ∈ tx.receivers) :
    tx.receiverCount ≠ 0 := by
  rw [receiverCount_eq]
  exact Nat.ne_of_gt (Map.size_pos h)

/-- A channel of an accepted capacity starts with nobody and nothing. -/
theorem channel_of_accepted {capacity : ℕ} (h : AcceptedCapacity α capacity) :
    channel capacity = some (⟨capacity, 0, ∅, []⟩ : Channel α) :=
  if_pos ((ChannelApi.accepts_iff capacity).2 h)

/-- Any other capacity panics. -/
theorem channel_of_not_accepted {capacity : ℕ} (h : ¬ AcceptedCapacity α capacity) :
    (channel capacity : Option (Channel α)) = none :=
  if_neg fun haccepted => h ((ChannelApi.accepts_iff capacity).1 haccepted)

/-- A send without receivers fails, and changes nothing. -/
theorem send_of_nobody (h : tx.receiverCount = 0) (message : α) :
    tx.send message = (none, tx) := by
  rw [send, ChannelApi.reached_eq_none tx message h]

/-- A send with receivers counts them. -/
theorem send_of_receivers (h : tx.receiverCount ≠ 0) (message : α) :
    tx.send message = (some tx.receiverCount, { tx with sent := tx.sent ++ [message] }) := by
  rw [send, ChannelApi.reached_eq_some tx message h]
  rfl

/-- A send without receivers changes nothing, and any other counts them. -/
theorem send_cases (tx : Channel α) (message : α) :
    (tx.receiverCount = 0 ∧ tx.send message = (none, tx)) ∨
      (tx.receiverCount ≠ 0 ∧ tx.send message =
        (some tx.receiverCount, { tx with sent := tx.sent ++ [message] })) := by
  by_cases hnobody : tx.receiverCount = 0
  · exact .inl ⟨hnobody, send_of_nobody hnobody message⟩
  · exact .inr ⟨hnobody, send_of_receivers hnobody message⟩

end Api

end Channel

end Base
