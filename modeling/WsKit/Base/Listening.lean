import Mathlib.Algebra.BigOperators.Group.Finset.Basic
import Mathlib.Algebra.BigOperators.Group.Finset.Piecewise
import Mathlib.Data.List.DropRight
import WsKit.Base.Channel

/-!
# Receivers that read

A channel holds on to its latest messages, so many that a receiver which has no more of them
unread loses nothing. A receiver that asks for its next message when it is gone is told how many
it has missed, and goes on with the oldest one that is still held.

Every step keeps the account: what a receiver was told covers a beginning of what it was offered
while it lived, and each message there is read or counted as missed, once and in order. So the
receivers counted by all sends are as many as the messages read, missed and left unread.
-/

namespace Base

namespace Channel

variable {α : Type*} {tx : Channel α}

/-- A new receiver was sent nothing, and the others what they had. -/
theorem sentSince_subscribe (tx : Channel α) (rx : ReceiverId) :
    tx.subscribe.2.sentSince rx = if rx = tx.created then some [] else tx.sentSince rx := by
  change (AList.lookup rx (tx.receivers.insert tx.created tx.sent.length)).map _ = _
  rw [Map.lookup_insert]
  split
  · exact congrArg some List.drop_length
  · rfl

/-- Nothing is sent to a dropped receiver, and the others have what they had. -/
theorem sentSince_dropReceiver (rx rx' : ReceiverId) :
    (tx.dropReceiver rx).sentSince rx' = if rx' = rx then none else tx.sentSince rx' := by
  change (AList.lookup rx' (tx.receivers.erase rx)).map _ = _
  split
  · next heq => rw [heq, AList.lookup_erase, Option.map_none]
  · next hne =>
    rw [AList.lookup_erase_ne hne]
    rfl

/-- A message that is sent is offered to every live receiver. -/
theorem sentSince_sent (h : tx.Valid) (message : α) (rx : ReceiverId) :
    sentSince { tx with sent := tx.sent ++ [message] } rx = (tx.sentSince rx).map (· ++ [message]) := by
  cases hbefore : tx.sentSince rx with
  | none =>
    rw [sentSince, Option.map_eq_none_iff] at hbefore
    rw [sentSince, hbefore, Option.map_none, Option.map_none]
  | some before => exact h.sentSince_append message hbefore

/-- The live receivers are those that may have been sent something. -/
theorem mem_receivers_iff {rx : ReceiverId} : rx ∈ tx.receivers ↔ (tx.sentSince rx).isSome = true := by
  rw [sentSince, Option.isSome_map, AList.lookup_isSome]

/-- The receivers alive among those created are as many as the channel counts. -/
theorem card_live [ChannelApi α] (h : tx.Valid) :
    ((Finset.range tx.created).filter fun rx => (tx.sentSince rx).isSome = true).card =
      tx.receiverCount := by
  have hkeys : ((Finset.range tx.created).filter fun rx => (tx.sentSince rx).isSome = true) =
      tx.receivers.keys.toFinset := by
    ext rx
    rw [Finset.mem_filter, Finset.mem_range, List.mem_toFinset, ← AList.mem_keys,
      mem_receivers_iff]
    refine ⟨And.right, fun hlive => ⟨?_, hlive⟩⟩
    obtain ⟨start, hlookup⟩ := Map.mem_iff_lookup.1 (mem_receivers_iff.2 hlive)
    exact (h rx start hlookup).1
  rw [hkeys, List.toFinset_card_of_nodup tx.receivers.keys_nodup, receiverCount_eq,
    Map.size_eq_length_keys]

end Channel

/-- A channel, and how many of its messages each receiver has read or missed. -/
structure Listening (α : Type*) where
  tx : Channel α
  passed : ReceiverId → ℕ

namespace Listening

variable {α : Type*}

/-- What can be done with a channel. -/
inductive Op (α : Type*) where
  | subscribe
  | dropReceiver (rx : ReceiverId)
  | send (message : α)
  | recv (rx : ReceiverId)

/-- What is seen of it. -/
inductive Obs (α : Type*) where
  | subscribed (rx : ReceiverId)
  | dropped (rx : ReceiverId)
  | sent (message : α) (reached : Option ℕ)
  | received (rx : ReceiverId) (answer : Received α)
  deriving DecidableEq

/-- A new channel. -/
def start (capacity : ℕ) : Listening α := ⟨⟨capacity, 0, ∅, []⟩, fun _ => 0⟩

/-- A receiver passes some of its messages. -/
def pass (s : Listening α) (rx : ReceiverId) (n : ℕ) : Listening α :=
  { s with passed := Function.update s.passed rx (s.passed rx + n) }

/-- The messages that a receiver has neither read nor missed. -/
def unread (s : Listening α) (rx : ReceiverId) : List α :=
  ((s.tx.sentSince rx).getD []).drop (s.passed rx)

/-- The messages that a receiver has unread and the channel still holds. -/
def queue [ChannelApi α] (s : Listening α) (rx : ReceiverId) : List α :=
  (s.unread rx).rtake (ChannelApi.held α s.tx.capacity)

/-- A live receiver asks for its next message. -/
def recv [ChannelApi α] (s : Listening α) (rx : ReceiverId) : Option (Received α × Listening α) :=
  (s.tx.sentSince rx).map fun _ =>
    let answered := ChannelApi.next s.tx (s.unread rx)
    (answered.1, s.pass rx answered.2)

/-- Take an operation; only live receivers can be dropped or read from. -/
def step [ChannelApi α] (s : Listening α) : Op α → Option (Listening α × List (Obs α))
  | .subscribe =>
    let made := s.tx.subscribe
    some ({ s with tx := made.2 }, [.subscribed made.1])
  | .dropReceiver rx =>
    if rx ∈ s.tx.receivers then some ({ s with tx := s.tx.dropReceiver rx }, [.dropped rx])
    else none
  | .send message =>
    let sent := s.tx.send message
    some ({ s with tx := sent.2 }, [.sent message sent.1])
  | .recv rx => (s.recv rx).map fun got => (got.2, [.received rx got.1])

/-! ### Readings of a trace -/

/-- What a receiver was told when it asked for messages. -/
def Obs.readBy (rx : ReceiverId) : Obs α → Option (Received α)
  | .received rx' answer => if rx' = rx then some answer else none
  | _ => none

/-- The receivers that a send reached. -/
def Obs.reached : Obs α → Option ℕ
  | .sent _ reached => reached
  | _ => none

/-- The answers to a receiver. -/
def reads (tr : List (Obs α)) (rx : ReceiverId) : List (Received α) := tr.filterMap (Obs.readBy rx)

/-- The receivers reached by all sends. -/
def reached (tr : List (Obs α)) : ℕ := (tr.filterMap Obs.reached).sum

/-- A message that was sent to receivers. -/
def Obs.delivered : Obs α → Option α
  | .sent message (some _) => some message
  | _ => none

/-- The messages that were sent to receivers. -/
def sends (tr : List (Obs α)) : List α := tr.filterMap Obs.delivered

/-- A receiver's life, with the messages that were sent during it. -/
inductive Life (α : Type*) where
  | unborn
  | live (offered : List α)
  | dropped (offered : List α)

namespace Life

/-- The messages sent while the receiver lived. -/
def offered : Life α → List α
  | .unborn => []
  | .live offered => offered
  | .dropped offered => offered

/-- The messages of a receiver that lives. -/
def current : Life α → Option (List α)
  | .live offered => some offered
  | _ => none

/-- A life goes on with what is seen. -/
def observe (rx : ReceiverId) : Life α → Obs α → Life α
  | .unborn, .subscribed rx' => if rx' = rx then .live [] else .unborn
  | .live offered, .dropped rx' => if rx' = rx then .dropped offered else .live offered
  | .live offered, .sent message (some _) => .live (offered ++ [message])
  | life, _ => life

end Life

/-- The life of a receiver. -/
def life (tr : List (Obs α)) (rx : ReceiverId) : Life α := tr.foldl (Life.observe rx) .unborn

/-- The messages sent while a receiver lived. -/
def offered (tr : List (Obs α)) (rx : ReceiverId) : List α := (life tr rx).offered

/-- The messages among a receiver's answers. -/
def messages (log : List (Received α)) : List α :=
  log.filterMap fun | .message message => some message | _ => none

/-- The number of messages that a receiver was told it has missed. -/
def missed (log : List (Received α)) : ℕ :=
  (log.filterMap fun | .lagged missed => some missed | _ => none).sum

/-- The answers account for the messages: each of them was read or counted as missed, once and in
order. -/
inductive Accounts : List (Received α) → List α → Prop
  | nil : Accounts [] []
  | message {log seen} (h : Accounts log seen) (message : α) :
      Accounts (log ++ [.message message]) (seen ++ [message])
  | lagged {log seen} (h : Accounts log seen) (lost : List α) :
      Accounts (log ++ [.lagged lost.length]) (seen ++ lost)
  | empty {log seen} (h : Accounts log seen) : Accounts (log ++ [.empty]) seen

namespace Accounts

variable {log : List (Received α)} {seen : List α}

/-- Every message is read or missed, and none is both. -/
theorem length_add (h : Accounts log seen) : (messages log).length + missed log = seen.length := by
  induction h with
  | nil => rfl
  | message h message ih => simp_all [messages, missed]; omega
  | lagged h lost ih => simp_all [messages, missed]; omega
  | empty h ih => simp_all [messages, missed]

/-- What is read is in the order of sending, and nothing is read twice. -/
theorem messages_sublist (h : Accounts log seen) : (messages log).Sublist seen := by
  induction h with
  | nil => exact List.Sublist.refl []
  | message h message ih => simpa [messages] using ih
  | lagged h lost ih =>
    simp only [messages, List.filterMap_append, List.filterMap_cons, List.filterMap_nil,
      List.append_nil]
    exact ih.trans (List.sublist_append_left _ lost)
  | empty h ih => simpa [messages] using ih

/-- A receiver that is never told of missed messages reads them all. -/
theorem messages_eq (h : Accounts log seen) (hnone : ∀ n, .lagged n ∉ log) :
    messages log = seen := by
  induction h with
  | nil => rfl
  | message h message ih =>
    rw [← ih fun n hmem => hnone n (List.mem_append_left _ hmem)]
    simp [messages]
  | lagged h lost ih => exact absurd (List.mem_append_right _ List.mem_cons_self) (hnone lost.length)
  | empty h ih =>
    rw [← ih fun n hmem => hnone n (List.mem_append_left _ hmem)]
    simp [messages]

end Accounts

/-- A life goes on with one more observation. -/
theorem life_snoc (tr : List (Obs α)) (o : Obs α) (rx : ReceiverId) :
    life (tr ++ [o]) rx = (life tr rx).observe rx o := List.foldl_append

/-- What one more observation shows. -/
theorem filterMap_snoc {β : Type*} (f : Obs α → Option β) (tr : List (Obs α)) (o : Obs α) :
    (tr ++ [o]).filterMap f = tr.filterMap f ++ (f o).toList := by
  rw [List.filterMap_append]
  cases hshown : f o with
  | none => rw [List.filterMap_cons_none hshown]; rfl
  | some shown => rw [List.filterMap_cons_some hshown]; rfl

/-- What one more observation shows of a receiver's answers. -/
theorem reads_snoc (tr : List (Obs α)) (o : Obs α) (rx : ReceiverId) :
    reads (tr ++ [o]) rx = reads tr rx ++ (o.readBy rx).toList := filterMap_snoc (Obs.readBy rx) tr o

/-- An observation of anything else shows nothing of them. -/
theorem reads_snoc_of_none {o : Obs α} {rx : ReceiverId} (h : o.readBy rx = none)
    (tr : List (Obs α)) : reads (tr ++ [o]) rx = reads tr rx := by
  rw [reads_snoc, h, Option.toList_none, List.append_nil]

/-- What one more observation adds to the messages sent. -/
theorem sends_snoc (tr : List (Obs α)) (o : Obs α) :
    sends (tr ++ [o]) = sends tr ++ o.delivered.toList := filterMap_snoc Obs.delivered tr o

/-- An observation of anything else adds none. -/
theorem sends_snoc_of_none {o : Obs α} (h : o.delivered = none) (tr : List (Obs α)) :
    sends (tr ++ [o]) = sends tr := by
  rw [sends_snoc, h, Option.toList_none, List.append_nil]

/-- An observation offers at most what it shows to be sent. -/
theorem offered_observe (rx : ReceiverId) (life : Life α) (o : Obs α) :
    (life.observe rx o).offered = life.offered ∨
      (life.observe rx o).offered = life.offered ++ o.delivered.toList := by
  cases life with
  | unborn =>
    cases o with
    | subscribed rx' =>
      left
      simp only [Life.observe]
      split <;> rfl
    | _ => exact .inl rfl
  | dropped seen => cases o <;> exact .inl rfl
  | live seen =>
    cases o with
    | dropped rx' =>
      left
      simp only [Life.observe]
      split <;> rfl
    | sent message reached =>
      cases reached with
      | none => exact .inl rfl
      | some n => exact .inr rfl
    | _ => exact .inl rfl

/-- What is offered to a receiver is among what was sent, in order. -/
theorem offered_sublist (tr : List (Obs α)) (rx : ReceiverId) :
    (offered tr rx).Sublist (sends tr) := by
  induction tr using List.reverseRecOn with
  | nil => exact List.Sublist.refl []
  | append_singleton tr o ih =>
    rw [offered, life_snoc, sends_snoc]
    obtain hsame | hmore := offered_observe rx (life tr rx) o
    · rw [hsame]
      exact ih.trans (List.sublist_append_left _ _)
    · rw [hmore]
      exact ih.append (List.Sublist.refl _)

/-- What the first observation adds to the receivers reached. -/
theorem reached_cons (o : Obs α) (tr : List (Obs α)) :
    reached (o :: tr) = o.reached.getD 0 + reached tr := by
  rw [reached, reached]
  cases hreached : o.reached with
  | none => rw [List.filterMap_cons_none hreached, Option.getD_none, Nat.zero_add]
  | some n => rw [List.filterMap_cons_some hreached, List.sum_cons, Option.getD_some]

/-- What one more observation adds to the receivers reached. -/
theorem reached_snoc (tr : List (Obs α)) (o : Obs α) :
    reached (tr ++ [o]) = reached tr + o.reached.getD 0 := by
  rw [reached, filterMap_snoc, List.sum_append, reached]
  cases o.reached <;> rfl

/-! ### Runs -/

/-- What every run keeps. -/
structure Accounted (s : Listening α) (tr : List (Obs α)) : Prop where
  valid : s.tx.Valid
  current : ∀ rx, s.tx.sentSince rx = (life tr rx).current
  unborn : ∀ rx, s.tx.created ≤ rx → life tr rx = .unborn
  passed : ∀ rx, s.passed rx ≤ (offered tr rx).length
  accounts : ∀ rx, Accounts (reads tr rx) ((offered tr rx).take (s.passed rx))
  sent : s.tx.sent = sends tr
  total : ∑ rx ∈ Finset.range s.tx.created, (offered tr rx).length = reached tr

/-- What is unread of what was offered to a live receiver. -/
theorem Accounted.unread_eq {s : Listening α} {tr : List (Obs α)} (h : Accounted s tr)
    {rx : ReceiverId} {before : List α} (hbefore : s.tx.sentSince rx = some before) :
    offered tr rx = before ∧ s.unread rx = before.drop (s.passed rx) := by
  refine ⟨?_, by rw [unread, hbefore, Option.getD_some]⟩
  have hlife := h.current rx
  rw [hbefore] at hlife
  rw [offered]
  cases hl : life tr rx with
  | unborn => rw [hl] at hlife; cases hlife
  | live l => rw [hl] at hlife; exact (Option.some.inj hlife).symm
  | dropped l => rw [hl] at hlife; cases hlife

/-- A new channel has nothing to account for. -/
theorem accounted_start (capacity : ℕ) : Accounted (start capacity : Listening α) [] where
  valid := Channel.valid_mk_empty capacity 0 []
  current _ := rfl
  unborn _ _ := rfl
  passed _ := Nat.zero_le _
  accounts _ := .nil
  sent := rfl
  total := rfl

variable {s s' : Listening α} {tr : List (Obs α)}

/-- Subscribing begins a life. -/
theorem Accounted.subscribe (h : Accounted s tr) :
    Accounted { s with tx := s.tx.subscribe.2 } (tr ++ [.subscribed s.tx.created]) := by
  have hlife : ∀ rx, life (tr ++ [.subscribed s.tx.created]) rx =
      if rx = s.tx.created then .live [] else life tr rx := by
    intro rx
    rw [life_snoc]
    by_cases heq : rx = s.tx.created
    · rw [if_pos heq, h.unborn rx (by rw [heq])]
      exact if_pos heq.symm
    · rw [if_neg heq]
      cases life tr rx with
      | unborn => exact if_neg fun hsame => heq hsame.symm
      | live l => rfl
      | dropped l => rfl
  have hoffered : ∀ rx, offered (tr ++ [.subscribed s.tx.created]) rx = offered tr rx := by
    intro rx
    rw [offered, hlife]
    split
    · next heq => rw [offered, h.unborn rx (by rw [heq])]; rfl
    · rfl
  have hreads : ∀ rx, reads (tr ++ [.subscribed s.tx.created]) rx = reads tr rx :=
    fun _ => reads_snoc_of_none rfl tr
  have hsent : s.tx.sent = sends (tr ++ [.subscribed s.tx.created]) :=
    h.sent.trans (sends_snoc_of_none rfl tr).symm
  refine ⟨h.valid.subscribe, fun rx => ?_, fun rx hrx => ?_, fun rx => ?_, fun rx => ?_, hsent, ?_⟩
  · rw [Channel.sentSince_subscribe, hlife, h.current]
    split <;> rfl
  · have hlt : s.tx.created < rx := hrx
    rw [hlife, if_neg hlt.ne']
    exact h.unborn rx hlt.le
  · rw [hoffered]
    exact h.passed rx
  · rw [hoffered, hreads]
    exact h.accounts rx
  · have hnew : (offered tr s.tx.created).length = 0 := by
      rw [offered, h.unborn _ (Nat.le_refl _)]
      rfl
    change ∑ rx ∈ Finset.range (s.tx.created + 1), _ = _
    simp only [hoffered]
    rw [Finset.sum_range_succ, hnew, Nat.add_zero, h.total, reached_snoc]
    rfl

/-- Dropping a receiver ends its life. -/
theorem Accounted.dropReceiver (h : Accounted s tr) (rx : ReceiverId) :
    Accounted { s with tx := s.tx.dropReceiver rx } (tr ++ [.dropped rx]) := by
  have hlife : ∀ rx', (life (tr ++ [.dropped rx]) rx').offered = offered tr rx' ∧
      (life (tr ++ [.dropped rx]) rx').current =
        (if rx' = rx then none else (life tr rx').current) ∧
      (life tr rx' = .unborn → life (tr ++ [.dropped rx]) rx' = .unborn) := by
    intro rx'
    rw [life_snoc, offered]
    cases life tr rx' with
    | unborn => exact ⟨rfl, (ite_self _).symm, fun _ => rfl⟩
    | dropped l => exact ⟨rfl, (ite_self _).symm, fun hborn => hborn⟩
    | live l =>
      rw [Life.observe]
      by_cases heq : rx' = rx
      · rw [if_pos heq.symm, if_pos heq]
        exact ⟨rfl, rfl, fun hborn => by cases hborn⟩
      · rw [if_neg fun hsame => heq hsame.symm, if_neg heq]
        exact ⟨rfl, rfl, fun hborn => by cases hborn⟩
  have hreads : ∀ rx', reads (tr ++ [.dropped rx]) rx' = reads tr rx' :=
    fun _ => reads_snoc_of_none rfl tr
  have hsent : s.tx.sent = sends (tr ++ [.dropped rx]) :=
    h.sent.trans (sends_snoc_of_none rfl tr).symm
  refine ⟨h.valid.dropReceiver rx, fun rx' => ?_, fun rx' hrx => ?_, fun rx' => ?_, fun rx' => ?_,
    hsent, ?_⟩
  · rw [Channel.sentSince_dropReceiver, (hlife rx').2.1, h.current]
  · exact (hlife rx').2.2 (h.unborn rx' hrx)
  · rw [offered, (hlife rx').1]
    exact h.passed rx'
  · rw [offered, (hlife rx').1, hreads]
    exact h.accounts rx'
  · refine Eq.trans ?_ (h.total.trans (reached_snoc tr (.dropped rx)).symm)
    exact Finset.sum_congr rfl fun rx' _ => congrArg List.length (hlife rx').1

/-- A send that reaches receivers offers the message to each that lives. -/
theorem Accounted.send [ChannelApi α] (h : Accounted s tr) (message : α) :
    Accounted { s with tx := { s.tx with sent := s.tx.sent ++ [message] } }
      (tr ++ [.sent message (some s.tx.receiverCount)]) := by
  have hlife : ∀ rx, life (tr ++ [.sent message (some s.tx.receiverCount)]) rx =
      match life tr rx with
      | .live l => .live (l ++ [message])
      | other => other := by
    intro rx
    rw [life_snoc]
    cases life tr rx <;> rfl
  have hoffered : ∀ rx, offered (tr ++ [.sent message (some s.tx.receiverCount)]) rx =
      offered tr rx ++ if (s.tx.sentSince rx).isSome = true then [message] else [] := by
    intro rx
    rw [offered, hlife, offered, h.current]
    cases life tr rx with
    | live l => rfl
    | unborn => rfl
    | dropped l => exact (List.append_nil l).symm
  have hreads : ∀ rx, reads (tr ++ [.sent message (some s.tx.receiverCount)]) rx = reads tr rx :=
    fun _ => reads_snoc_of_none rfl tr
  have hsent : s.tx.sent ++ [message] =
      sends (tr ++ [.sent message (some s.tx.receiverCount)]) := by
    rw [sends_snoc, h.sent]
    rfl
  refine ⟨h.valid.append message, fun rx => ?_, fun rx hrx => ?_, fun rx => ?_, fun rx => ?_, hsent,
    ?_⟩
  · rw [Channel.sentSince_sent h.valid, hlife, h.current]
    cases life tr rx <;> rfl
  · rw [hlife, h.unborn rx hrx]
  · rw [hoffered, List.length_append]
    exact Nat.le_add_right_of_le (h.passed rx)
  · rw [hoffered, hreads, List.take_append_of_le_length (h.passed rx)]
    exact h.accounts rx
  · have hlive := Channel.card_live h.valid
    rw [Finset.card_filter] at hlive
    refine Eq.trans ?_ (reached_snoc tr (.sent message (some s.tx.receiverCount))).symm
    change _ = reached tr + s.tx.receiverCount
    rw [← h.total, ← hlive, ← Finset.sum_add_distrib, hlive]
    refine Finset.sum_congr rfl fun rx _ => ?_
    rw [hoffered, List.length_append]
    split <;> rfl

/-- A send that reaches nobody offers nothing. -/
theorem Accounted.send_nobody (h : Accounted s tr) (message : α) :
    Accounted s (tr ++ [.sent message none]) := by
  have hlife : ∀ rx, life (tr ++ [.sent message none]) rx = life tr rx := by
    intro rx
    rw [life_snoc]
    cases life tr rx <;> rfl
  have hreads : ∀ rx, reads (tr ++ [.sent message none]) rx = reads tr rx :=
    fun _ => reads_snoc_of_none rfl tr
  have hsent : s.tx.sent = sends (tr ++ [.sent message none]) :=
    h.sent.trans (sends_snoc_of_none rfl tr).symm
  refine ⟨h.valid, fun rx => ?_, fun rx hrx => ?_, fun rx => ?_, fun rx => ?_, hsent, ?_⟩
  · rw [hlife]
    exact h.current rx
  · rw [hlife]
    exact h.unborn rx hrx
  · rw [offered, hlife]
    exact h.passed rx
  · rw [offered, hlife, hreads]
    exact h.accounts rx
  · simp only [offered, hlife, reached_snoc]
    exact h.total

/-- The receivers reached by all sends are as many as the messages that all receivers have read,
missed, or not come to. -/
theorem Accounted.total_eq (h : Accounted s tr) :
    ∑ rx ∈ Finset.range s.tx.created, ((messages (reads tr rx)).length + missed (reads tr rx) +
      ((offered tr rx).length - s.passed rx)) = reached tr := by
  rw [← h.total]
  refine Finset.sum_congr rfl fun rx _ => ?_
  have hread := (h.accounts rx).length_add
  have hpassed := h.passed rx
  rw [List.length_take] at hread
  omega

/-- Reading leaves no more unread than there was. -/
theorem length_unread_pass (s : Listening α) (rx rx' : ReceiverId) (n : ℕ) :
    ((s.pass rx' n).unread rx).length ≤ (s.unread rx).length := by
  rw [unread, unread]
  change (List.drop (Function.update s.passed rx' _ rx) ((s.tx.sentSince rx).getD [])).length ≤ _
  rw [List.length_drop, List.length_drop]
  by_cases hsame : rx = rx'
  · rw [hsame, Function.update_self]
    omega
  · rw [Function.update_of_ne hsame]

/-- A channel that holds `held` messages takes one more for a receiver with these unread, and
overwrites the oldest of as many as it holds. -/
theorem rtake_concat (unread : List α) (message : α) (held : ℕ) :
    (unread ++ [message]).rtake held =
      if (unread.rtake held).length < held then unread.rtake held ++ [message]
      else (unread.rtake held ++ [message]).tail := by
  have hlength : (unread.rtake held).length = min held unread.length := by
    rw [List.rtake, List.length_drop]
    omega
  rw [hlength]
  by_cases hroom : unread.length < held
  · rw [if_pos (lt_of_le_of_lt (Nat.min_le_right _ _) hroom), List.rtake, List.rtake,
      Nat.sub_eq_zero_of_le hroom.le, List.length_append, List.length_singleton,
      Nat.sub_eq_zero_of_le hroom, List.drop_zero, List.drop_zero]
  · rw [if_neg (by omega), List.rtake, List.rtake, List.length_append, List.length_singleton,
      ← List.drop_one, ← List.drop_append_of_le_length (Nat.sub_le _ _), List.drop_drop]
    congr 1
    omega

variable [ChannelApi α]

/-- An answer passes as many messages as it accounts for. -/
theorem Accounts.next {log : List (Received α)} {offered : List α} {n : ℕ} (hn : n ≤ offered.length)
    (h : Accounts log (offered.take n)) (tx : Channel α) :
    n + (ChannelApi.next tx (offered.drop n)).2 ≤ offered.length ∧
      Accounts (log ++ [(ChannelApi.next tx (offered.drop n)).1])
        (offered.take (n + (ChannelApi.next tx (offered.drop n)).2)) := by
  by_cases hlag : ChannelApi.held α tx.capacity < (offered.drop n).length
  · rw [ChannelApi.next_lagged tx _ hlag]
    have hlost : ((offered.drop n).take
        ((offered.drop n).length - ChannelApi.held α tx.capacity)).length =
          (offered.drop n).length - ChannelApi.held α tx.capacity := by
      rw [List.length_take]
      exact Nat.min_eq_left (Nat.sub_le _ _)
    have hsplit : offered.take (n + ((offered.drop n).length - ChannelApi.held α tx.capacity)) =
        offered.take n ++ (offered.drop n).take
          ((offered.drop n).length - ChannelApi.held α tx.capacity) := List.take_add
    refine ⟨?_, ?_⟩
    · rw [List.length_drop] at hlag ⊢
      dsimp only
      omega
    · have hnext := h.lagged ((offered.drop n).take
        ((offered.drop n).length - ChannelApi.held α tx.capacity))
      rw [hlost, ← hsplit] at hnext
      exact hnext
  · cases hunread : offered.drop n with
    | nil =>
      rw [ChannelApi.next_nil]
      exact ⟨hn, h.empty⟩
    | cons message rest =>
      rw [hunread] at hlag
      rw [ChannelApi.next_cons tx message rest (Nat.le_of_not_lt hlag)]
      have hlt : n < offered.length := by
        have hlength := congrArg List.length hunread
        rw [List.length_drop, List.length_cons] at hlength
        omega
      refine ⟨hlt, ?_⟩
      have hsplit : offered.take (n + 1) = offered.take n ++ [message] := by
        rw [List.take_add, hunread]
        rfl
      rw [hsplit]
      exact h.message message

/-- A send puts the message behind what a live receiver has queued, and pushes the oldest one out of
a full queue. -/
theorem Accounted.queue_send (h : Accounted s tr) (message : α) {rx : ReceiverId}
    (hlive : rx ∈ s.tx.receivers) :
    queue { s with tx := { s.tx with sent := s.tx.sent ++ [message] } } rx =
      if (s.queue rx).length < ChannelApi.held α s.tx.capacity then s.queue rx ++ [message]
      else (s.queue rx ++ [message]).tail := by
  obtain ⟨sent, hsent⟩ := Option.isSome_iff_exists.1 (Channel.mem_receivers_iff.1 hlive)
  obtain ⟨hoffered, hunread⟩ := h.unread_eq hsent
  have hpassed := h.passed rx
  rw [hoffered] at hpassed
  have hnext : unread { s with tx := { s.tx with sent := s.tx.sent ++ [message] } } rx =
      s.unread rx ++ [message] := by
    rw [unread, h.valid.sentSince_append message hsent, Option.getD_some, hunread]
    exact List.drop_append_of_le_length hpassed
  rw [queue, hnext]
  exact rtake_concat (s.unread rx) message _

/-- Reading accounts for what it passes. -/
theorem Accounted.recv (h : Accounted s tr) {rx : ReceiverId} {got : Received α}
    (hrecv : s.recv rx = some (got, s')) : Accounted s' (tr ++ [.received rx got]) := by
  obtain ⟨before, hbefore, heq⟩ := Option.map_eq_some_iff.1 hrecv
  obtain ⟨rfl, rfl⟩ := Prod.mk.inj heq
  obtain ⟨hoffered, hunread⟩ := h.unread_eq hbefore
  have hlife : ∀ rx' got, life (tr ++ [.received rx got]) rx' = life tr rx' := by
    intro rx' got
    rw [life_snoc]
    cases life tr rx' <;> rfl
  have hpassed := h.passed rx
  have haccounts := h.accounts rx
  rw [hoffered] at hpassed haccounts
  obtain ⟨hfits, hnext⟩ := haccounts.next hpassed s.tx
  rw [← hunread] at hfits hnext
  have hsent : s.tx.sent = sends (tr ++ [.received rx (ChannelApi.next s.tx (s.unread rx)).1]) :=
    h.sent.trans (sends_snoc_of_none rfl tr).symm
  refine ⟨h.valid, fun rx' => ?_, fun rx' hrx => ?_, fun rx' => ?_, fun rx' => ?_, hsent, ?_⟩
  · rw [hlife]
    exact h.current rx'
  · rw [hlife]
    exact h.unborn rx' hrx
  · rw [offered, hlife]
    change Function.update s.passed rx _ rx' ≤ (offered tr rx').length
    by_cases hsame : rx' = rx
    · rw [hsame, Function.update_self, hoffered]
      exact hfits
    · rw [Function.update_of_ne hsame]
      exact h.passed rx'
  · rw [offered, hlife]
    change Accounts _ ((offered tr rx').take (Function.update s.passed rx _ rx'))
    by_cases hsame : rx' = rx
    · rw [hsame, Function.update_self, hoffered]
      have hread : reads (tr ++ [.received rx (ChannelApi.next s.tx (s.unread rx)).1]) rx =
          reads tr rx ++ [(ChannelApi.next s.tx (s.unread rx)).1] := by
        rw [reads_snoc, Obs.readBy, if_pos rfl]
        rfl
      rw [hread]
      exact hnext
    · rw [Function.update_of_ne hsame]
      have hother : (Obs.received rx (ChannelApi.next s.tx (s.unread rx)).1).readBy rx' = none :=
        if_neg (Ne.symm hsame)
      rw [reads_snoc_of_none hother]
      exact h.accounts rx'
  · refine Eq.trans ?_ (h.total.trans (reached_snoc tr (.received rx _)).symm)
    exact Finset.sum_congr rfl fun rx' _ => by rw [offered, hlife, offered]

/-- Every step keeps the account. -/
theorem Accounted.step (h : Accounted s tr) {op : Op α} {out : List (Obs α)}
    (hstep : Listening.step s op = some (s', out)) : Accounted s' (tr ++ out) := by
  cases op with
  | subscribe =>
    obtain ⟨rfl, rfl⟩ := Prod.mk.inj (Option.some.inj hstep)
    exact h.subscribe
  | dropReceiver rx =>
    obtain ⟨-, heq⟩ := Option.ite_none_right_eq_some.1 hstep
    obtain ⟨rfl, rfl⟩ := Prod.mk.inj (Option.some.inj heq)
    exact h.dropReceiver rx
  | send message =>
    obtain ⟨rfl, rfl⟩ := Prod.mk.inj (Option.some.inj hstep)
    obtain ⟨-, hsend⟩ | ⟨-, hsend⟩ := s.tx.send_cases message
    · rw [hsend]
      exact h.send_nobody message
    · rw [hsend]
      exact h.send message
  | recv rx =>
    obtain ⟨⟨got, next⟩, hrecv, heq⟩ := Option.map_eq_some_iff.1 hstep
    obtain ⟨rfl, rfl⟩ := Prod.mk.inj heq
    exact h.recv hrecv

/-- What a step of a larger system does to one channel: nothing, or an operation that satisfies
`G`. -/
inductive Moves (G : Op α → Prop) (s : Listening α) : Listening α → List (Obs α) → Prop
  | stay : Moves G s s []
  | op {s' op out} (hop : G op) (h : Listening.step s op = some (s', out)) : Moves G s s' out

/-- A larger system keeps the account of each of its channels. -/
theorem Accounted.moves (h : Accounted s tr) {G : Op α → Prop} {out : List (Obs α)}
    (hmoves : Moves G s s' out) : Accounted s' (tr ++ out) := by
  cases hmoves with
  | stay => rwa [List.append_nil]
  | op hop hstep => exact h.step hstep

variable {capacity : ℕ}

/-! ### Receivers that keep up -/

/-- Nobody sends while the receiver has as many messages unread as the channel's capacity. -/
def KeepsUp (capacity : ℕ) (rx : ReceiverId) (s : Listening α) : Op α → Prop
  | .send _ => (s.unread rx).length < capacity
  | _ => True

instance (capacity : ℕ) (rx : ReceiverId) (s : Listening α) :
    ∀ op, Decidable (KeepsUp capacity rx s op)
  | .send _ => inferInstanceAs (Decidable (_ < _))
  | .subscribe => isTrue trivial
  | .dropReceiver _ => isTrue trivial
  | .recv _ => isTrue trivial

/-- What a receiver that keeps up has unread, and what it was told. -/
structure UpToDate (capacity : ℕ) (rx : ReceiverId) (s : Listening α) (tr : List (Obs α)) : Prop where
  accounted : Accounted s tr
  held : capacity ≤ ChannelApi.held α s.tx.capacity
  unread_le : (s.unread rx).length ≤ capacity
  noLag : ∀ n, .lagged n ∉ reads tr rx

/-- A receiver that has no more unread than the channel holds has missed nothing. -/
theorem next_ne_lagged {tx : Channel α} {unread : List α}
    (h : unread.length ≤ ChannelApi.held α tx.capacity) (n : ℕ) :
    (ChannelApi.next tx unread).1 ≠ .lagged n := by
  cases unread with
  | nil =>
    rw [ChannelApi.next_nil]
    exact fun hlag => by cases hlag
  | cons message rest =>
    rw [ChannelApi.next_cons tx message rest h]
    exact fun hlag => by cases hlag

/-- A receiver that keeps up stays up to date. -/
theorem UpToDate.step {rx : ReceiverId} (h : UpToDate capacity rx s tr) {op : Op α}
    {out : List (Obs α)} (hkeeps : KeepsUp capacity rx s op)
    (hstep : Listening.step s op = some (s', out)) : UpToDate capacity rx s' (tr ++ out) := by
  have haccounted := h.accounted.step hstep
  have hquiet : ∀ o : Obs α, o.readBy rx = none → ∀ n, .lagged n ∉ reads (tr ++ [o]) rx := by
    intro o hnone
    rw [reads_snoc_of_none hnone]
    exact h.noLag
  cases op with
  | subscribe =>
    obtain ⟨rfl, rfl⟩ := Prod.mk.inj (Option.some.inj hstep)
    refine ⟨haccounted, h.held, ?_, hquiet _ rfl⟩
    have hle := h.unread_le
    rw [unread, List.length_drop] at hle ⊢
    rw [Channel.sentSince_subscribe]
    split
    · exact (Nat.sub_le _ _).trans (Nat.zero_le _)
    · exact hle
  | dropReceiver rx' =>
    obtain ⟨-, heq⟩ := Option.ite_none_right_eq_some.1 hstep
    obtain ⟨rfl, rfl⟩ := Prod.mk.inj (Option.some.inj heq)
    refine ⟨haccounted, h.held, ?_, hquiet _ rfl⟩
    have hle := h.unread_le
    rw [unread, List.length_drop] at hle ⊢
    rw [Channel.sentSince_dropReceiver]
    split
    · exact (Nat.sub_le _ _).trans (Nat.zero_le _)
    · exact hle
  | send message =>
    obtain ⟨rfl, rfl⟩ := Prod.mk.inj (Option.some.inj hstep)
    have hlt : (s.unread rx).length < capacity := hkeeps
    obtain ⟨-, hsend⟩ | ⟨-, hsend⟩ := s.tx.send_cases message
    · rw [hsend] at haccounted ⊢
      exact ⟨haccounted, h.held, hlt.le, hquiet _ rfl⟩
    · rw [hsend] at haccounted ⊢
      refine ⟨haccounted, h.held, ?_, hquiet _ rfl⟩
      rw [unread, List.length_drop]
      rw [unread, List.length_drop] at hlt
      rw [Channel.sentSince_sent h.accounted.valid]
      cases hbefore : s.tx.sentSince rx with
      | none => exact (Nat.sub_le _ _).trans (Nat.zero_le _)
      | some before =>
        rw [hbefore, Option.getD_some] at hlt
        rw [Option.map_some, Option.getD_some, List.length_append, List.length_singleton]
        change before.length + 1 - s.passed rx ≤ capacity
        omega
  | recv rx' =>
    obtain ⟨⟨got, next⟩, hrecv, heq⟩ := Option.map_eq_some_iff.1 hstep
    obtain ⟨rfl, rfl⟩ := Prod.mk.inj heq
    obtain ⟨before, hbefore, heq⟩ := Option.map_eq_some_iff.1 hrecv
    obtain ⟨rfl, rfl⟩ := Prod.mk.inj heq
    refine ⟨haccounted, h.held, (length_unread_pass s rx rx' _).trans h.unread_le, ?_⟩
    by_cases hsame : rx' = rx
    · rw [reads_snoc, Obs.readBy, if_pos hsame, hsame]
      intro n hmem
      obtain hold | hnew := List.mem_append.1 hmem
      · exact h.noLag n hold
      · rw [Option.toList_some, List.mem_singleton] at hnew
        exact next_ne_lagged (h.unread_le.trans h.held) n hnew.symm
    · exact hquiet _ (if_neg hsame)

/-- So it does in a larger system. -/
theorem UpToDate.moves {rx : ReceiverId} (h : UpToDate capacity rx s tr) {out : List (Obs α)}
    (hmoves : Moves (KeepsUp capacity rx s) s s' out) :
    UpToDate capacity rx s' (tr ++ out) := by
  cases hmoves with
  | stay => rwa [List.append_nil]
  | op hop hstep => exact h.step hop hstep

/-- At the start every receiver is up to date. -/
theorem upToDate_start (capacity rx : ℕ) : UpToDate capacity rx (start capacity : Listening α) [] :=
  ⟨accounted_start capacity, ChannelApi.le_held capacity, Nat.zero_le _, fun _ => List.not_mem_nil⟩

/-- A receiver that is up to date has read, in order, all that it was offered but what is left
unread. -/
theorem UpToDate.messages_eq {rx : ReceiverId} (h : UpToDate capacity rx s tr) :
    messages (reads tr rx) = (offered tr rx).take (s.passed rx) :=
  (h.accounted.accounts rx).messages_eq h.noLag

end Listening

end Base
