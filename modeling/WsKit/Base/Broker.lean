import Mathlib.Data.List.Basic
import Mathlib.Logic.Function.Basic

/-!
# At-most-once message brokers

A broker keeps the messages published so far and, for every subscriber, those it has not yet
handed to it. It may lose any of them. Whatever it loses, each subscriber is handed messages
in the order in which they were published, and each message at most once.
-/

namespace Base

/-- The messages published so far, and those waiting for each subscriber. -/
structure Broker (ν μ : Type*) where
  published : List μ
  queue : ν → List μ

namespace Broker

variable {ν μ : Type*}

/-- Nothing has been published. -/
def empty : Broker ν μ := ⟨[], fun _ => []⟩

/-- Publish a message, which waits for the subscribers that match it. -/
def publish (b : Broker ν μ) (subscribed : ν → Bool) (message : μ) : Broker ν μ :=
  ⟨b.published ++ [message],
    fun x => if subscribed x then b.queue x ++ [message] else b.queue x⟩

variable [DecidableEq ν]

/-- Lose the message at a position of a subscriber's queue. -/
def lose (b : Broker ν μ) (x : ν) (i : ℕ) : Broker ν μ :=
  { b with queue := Function.update b.queue x ((b.queue x).eraseIdx i) }

/-- Hand a subscriber the message that has waited longest. -/
def hand (b : Broker ν μ) (x : ν) : Option (μ × Broker ν μ) :=
  match b.queue x with
  | [] => none
  | message :: rest => some (message, { b with queue := Function.update b.queue x rest })

omit [DecidableEq ν] in
/-- Every subscriber was handed, and is still to be handed, messages in the order in which they
were published. -/
def InOrder (b : Broker ν μ) (handed : ν → List μ) : Prop :=
  ∀ x, (handed x ++ b.queue x).Sublist b.published

variable {b b' : Broker ν μ} {handed : ν → List μ}

omit [DecidableEq ν] in
/-- The empty broker has handed nothing to anybody. -/
theorem inOrder_empty : InOrder (empty : Broker ν μ) fun _ => [] := fun _ => List.Sublist.refl []

omit [DecidableEq ν] in
/-- Publishing keeps the order. -/
theorem InOrder.publish (h : b.InOrder handed) (subscribed : ν → Bool) (message : μ) :
    (b.publish subscribed message).InOrder handed := by
  intro x
  change (handed x ++ if subscribed x then b.queue x ++ [message] else b.queue x).Sublist
    (b.published ++ [message])
  split
  · rw [← List.append_assoc]
    exact (h x).append (List.Sublist.refl _)
  · exact (h x).trans (List.sublist_append_left _ _)

/-- Losing a message keeps the order. -/
theorem InOrder.lose (h : b.InOrder handed) (x : ν) (i : ℕ) : (b.lose x i).InOrder handed := by
  intro y
  change (handed y ++ Function.update b.queue x ((b.queue x).eraseIdx i) y).Sublist b.published
  by_cases hy : y = x
  · subst hy
    rw [Function.update_self]
    exact ((List.Sublist.refl _).append (List.eraseIdx_sublist _ i)).trans (h y)
  · rw [Function.update_of_ne hy]
    exact h y

/-- Handing a message over is taking it from the front of the queue. -/
theorem hand_eq_some {x : ν} {message : μ} (h : b.hand x = some (message, b')) :
    ∃ rest, b.queue x = message :: rest ∧ b' = { b with queue := Function.update b.queue x rest } := by
  rw [hand] at h
  split at h
  · cases h
  · next message' rest hqueue =>
    obtain ⟨rfl, rfl⟩ := Prod.mk.inj (Option.some.inj h)
    exact ⟨rest, hqueue, rfl⟩

/-- What is handed over was published. -/
theorem InOrder.mem_published (h : b.InOrder handed) {x : ν} {message : μ}
    (hhand : b.hand x = some (message, b')) : message ∈ b.published := by
  obtain ⟨rest, hqueue, _⟩ := hand_eq_some hhand
  apply (h x).subset
  rw [hqueue]
  exact List.mem_append_right _ List.mem_cons_self

/-- Handing a message over keeps the order. -/
theorem InOrder.hand (h : b.InOrder handed) {x : ν} {message : μ}
    (hhand : b.hand x = some (message, b')) {handed' : ν → List μ}
    (hself : handed' x = handed x ++ [message]) (hothers : ∀ y, y ≠ x → handed' y = handed y) :
    b'.InOrder handed' := by
  obtain ⟨rest, hqueue, rfl⟩ := hand_eq_some hhand
  intro y
  change (handed' y ++ Function.update b.queue x rest y).Sublist b.published
  by_cases hy : y = x
  · subst hy
    have hold := h y
    rw [hqueue] at hold
    rw [Function.update_self, hself, List.append_assoc]
    exact hold
  · rw [Function.update_of_ne hy, hothers y hy]
    exact h y

omit [DecidableEq ν] in
/-- What a subscriber was handed is in the order of publication. -/
theorem InOrder.handed_sublist (h : b.InOrder handed) (x : ν) : (handed x).Sublist b.published :=
  (List.sublist_append_left _ _).trans (h x)

/-! ### Brokers that lose nothing -/

omit [DecidableEq ν] in
/-- Every subscriber was handed, and is still to be handed, all messages published. -/
def Lossless (b : Broker ν μ) (handed : ν → List μ) : Prop := ∀ x, handed x ++ b.queue x = b.published

omit [DecidableEq ν] in
/-- The empty broker has lost nothing. -/
theorem lossless_empty : Lossless (empty : Broker ν μ) fun _ => [] := fun _ => rfl

omit [DecidableEq ν] in
/-- A message that matches every subscriber's subscription is lost by none. -/
theorem Lossless.publish (h : b.Lossless handed) {subscribed : ν → Bool}
    (hall : ∀ x, subscribed x = true) (message : μ) : (b.publish subscribed message).Lossless handed := by
  intro x
  change (handed x ++ if subscribed x then b.queue x ++ [message] else b.queue x) =
    b.published ++ [message]
  rw [if_pos (hall x), ← List.append_assoc, h x]

/-- Handing a message over loses none. -/
theorem Lossless.hand (h : b.Lossless handed) {x : ν} {message : μ}
    (hhand : b.hand x = some (message, b')) {handed' : ν → List μ}
    (hself : handed' x = handed x ++ [message]) (hothers : ∀ y, y ≠ x → handed' y = handed y) :
    b'.Lossless handed' := by
  obtain ⟨rest, hqueue, rfl⟩ := hand_eq_some hhand
  intro y
  change handed' y ++ Function.update b.queue x rest y = b.published
  by_cases hy : y = x
  · subst hy
    have hold := h y
    rw [hqueue] at hold
    rw [Function.update_self, hself, List.append_assoc]
    exact hold
  · rw [Function.update_of_ne hy, hothers y hy]
    exact h y

end Broker

end Base
