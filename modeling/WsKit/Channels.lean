import WsKit.Base.Glob
import WsKit.RedisRooms

/-!
# Channels and subscriptions

The channel prefix is read in two languages: literally in the channel that a room publishes to,
and as a glob pattern, followed by a star, in the subscription. Between registries with one
prefix the question is whether the pattern matches every channel; between registries with
different prefixes it is whether one strips the other's channels.
-/

namespace WsKit

open Base Base.Glob

namespace RedisRoomRegistry

/-- Redis hands a message on the channel to the subscriber loop. -/
def subscribes (reg : RedisRoomRegistry) (channel : Str) : Bool := globMatch reg.pattern channel

/-! ### One prefix -/

/-- The pattern matches every channel of its prefix exactly when it matches the prefix and ends
open. -/
theorem forall_subscribes_iff (reg : RedisRoomRegistry) :
    (∀ roomId, reg.subscribes (reg.channelPrefix ++ roomId) = true) ↔
      globMatch (reg.channelPrefix ++ ['*']) reg.channelPrefix = true ∧
        OpenEnded (tokens (reg.channelPrefix ++ ['*'])) := by
  simp only [subscribes, pattern, globMatch]
  exact forall_matched_append_iff

/-- A prefix without classes and escapes is matched by its pattern, which ends open. -/
theorem covers_of_plain {p : Str} (h : Plain p) :
    globMatch (p ++ ['*']) p = true ∧ OpenEnded (tokens (p ++ ['*'])) := by
  have htokens : tokens (p ++ ['*']) = p.map plainToken ++ [.run] := tokens_append_of_plain h ['*']
  rw [globMatch, htokens]
  refine ⟨matched_append.2 ⟨p, [], by simp, matched_map_plainToken p, by decide⟩, ?_⟩
  exact ⟨p.map plainToken, [], rfl, by simp, by simp⟩

/-- A class or an escape that does not accept its own first character keeps every channel of the
prefix out. -/
theorem subscribes_eq_false_of_rejects {u v : Str} {c : Char} {t : Token} {ts : List Token}
    (hu : Plain u) (hstar : '*' ∉ u) (htokens : tokens (c :: v ++ ['*']) = t :: ts)
    (ht : t ≠ .run) (hrejects : t.accepts c = false) (reg : RedisRoomRegistry)
    (hreg : reg.channelPrefix = u ++ c :: v) (roomId : Str) :
    reg.subscribes (reg.channelPrefix ++ roomId) = false := by
  rw [subscribes, pattern, globMatch, hreg, List.append_assoc, List.append_assoc,
    ← Bool.not_eq_true, matched_tokens_append_of_plain hu hstar, htokens, matched_cons ht]
  rintro ⟨d, rest, heq, haccepts, -⟩
  rw [List.cons_append, List.cons.injEq] at heq
  rw [← heq.1, hrejects] at haccepts
  cases haccepts

/-- What one registry publishes reaches every other with its prefix, for every room, exactly when
the pattern matches the bare prefix and the star is left open. So it is for a prefix without
`[` and backslash. A class or an escape that rejects the character it is written with, after a
part without any and without stars, shuts every room out. -/
theorem subscription_covers_publication_iff (rooms rooms' : RoomManager) (p : Str)
    (id id' : NodeId) :
    let publisher : RedisRoomRegistry := ⟨rooms, p, id⟩
    let subscriber : RedisRoomRegistry := ⟨rooms', p, id'⟩
    ((∀ roomId frame,
        subscriber.subscribes (publisher.publishCommand frame roomId).1 = true ∧
          subscriber.roomIdFromChannel (publisher.publishCommand frame roomId).1 = some roomId) ↔
      globMatch (p ++ ['*']) p = true ∧ OpenEnded (tokens (p ++ ['*']))) ∧
    (Plain p → globMatch (p ++ ['*']) p = true ∧ OpenEnded (tokens (p ++ ['*']))) ∧
    (∀ u c v t ts, p = u ++ c :: v → Plain u → '*' ∉ u →
      tokens (c :: v ++ ['*']) = t :: ts → t ≠ .run → t.accepts c = false →
      ∀ roomId frame, subscriber.subscribes (publisher.publishCommand frame roomId).1 = false) := by
  intro publisher subscriber
  have hsame : publisher.channelPrefix = subscriber.channelPrefix := rfl
  refine ⟨?_, covers_of_plain, ?_⟩
  · rw [← forall_subscribes_iff subscriber]
    constructor
    · intro h roomId
      exact (h roomId (.text [])).1
    · intro h roomId frame
      exact ⟨h roomId, roomIdFromChannel_channelName hsame roomId⟩
  · intro u c v t ts hp hu hstar htokens ht hrejects roomId _
    exact subscribes_eq_false_of_rejects hu hstar htokens ht hrejects subscriber hp roomId

/-- A prefix with a class is read as one: its channels are not matched. -/
theorem subscription_misses_bracketed :
    ¬ ∀ (reg reg' : RedisRoomRegistry) (roomId : Str), reg.channelPrefix = reg'.channelPrefix →
      reg'.subscribes (reg.channelName roomId) = true ∧
        reg'.roomIdFromChannel (reg.channelName roomId) = some roomId := by
  intro h
  have hmatched := (h ⟨.empty 16 none, ['[', 'x', ']', ':'], ⟨List.replicate 16 1, rfl⟩⟩
    ⟨.empty 16 none, ['[', 'x', ']', ':'], ⟨List.replicate 16 2, rfl⟩⟩ ['l'] rfl).1
  revert hmatched
  decide

/-! ### Two prefixes -/

/-- A registry takes no room id from another one's channel exactly when its prefix is neither a
beginning of the other prefix nor reaches beyond it into the room id. -/
theorem roomIdFromChannel_channelName_eq_none_iff (reg reg' : RedisRoomRegistry) (roomId : Str) :
    reg'.roomIdFromChannel (reg.channelName roomId) = none ↔
      ¬ reg'.channelPrefix <+: reg.channelPrefix ∧
        ∀ t, reg'.channelPrefix = reg.channelPrefix ++ t → ¬ t <+: roomId := by
  rw [roomIdFromChannel, channelName, stripPrefix_eq_none_iff]
  constructor
  · intro h
    refine ⟨fun hbegins => h (hbegins.trans (List.prefix_append _ _)), ?_⟩
    intro t ht hroom
    rw [ht] at h
    exact h ((List.prefix_append_right_inj _).2 hroom)
  · rintro ⟨hshorter, hlonger⟩ h
    rcases List.prefix_or_prefix_of_prefix h (List.prefix_append _ _) with hbegins | ⟨t, ht⟩
    · exact hshorter hbegins
    · rw [← ht, List.prefix_append_right_inj] at h
      exact hlonger t ht.symm h

/-- A message on a channel without the prefix is dropped. -/
theorem onMessage_of_roomIdFromChannel {reg : RedisRoomRegistry} {channel : Str}
    (h : reg.roomIdFromChannel channel = none) (payload : Bytes) :
    reg.onMessage channel payload = none := by
  rw [onMessage, h, Option.bind_none]

/-- What one registry publishes is applied to no room by another one, for every room, exactly when
neither prefix begins the other. For one room it is enough that the other prefix neither begins
its own nor reaches into the room id, and then the message is dropped. -/
theorem isolated_iff (reg reg' : RedisRoomRegistry) :
    ((∀ roomId, reg'.roomIdFromChannel (reg.channelName roomId) = none) ↔
      ¬ reg.channelPrefix <+: reg'.channelPrefix ∧ ¬ reg'.channelPrefix <+: reg.channelPrefix) ∧
    ∀ roomId,
      (reg'.roomIdFromChannel (reg.channelName roomId) = none ↔
        ¬ reg'.channelPrefix <+: reg.channelPrefix ∧
          ∀ t, reg'.channelPrefix = reg.channelPrefix ++ t → ¬ t <+: roomId) ∧
      (reg'.roomIdFromChannel (reg.channelName roomId) = none → ∀ frame,
        reg'.onMessage (reg.publishCommand frame roomId).1 (reg.publishCommand frame roomId).2 =
          none) := by
  have hnone := roomIdFromChannel_channelName_eq_none_iff reg reg'
  refine ⟨⟨?_, ?_⟩, fun roomId => ⟨hnone roomId, ?_⟩⟩
  · intro h
    refine ⟨?_, ((hnone []).1 (h [])).1⟩
    rintro ⟨t, ht⟩
    exact ((hnone t).1 (h t)).2 t ht.symm (List.prefix_refl t)
  · rintro ⟨hlonger, hshorter⟩ roomId
    exact (hnone roomId).2 ⟨hshorter, fun t ht => (hlonger ⟨t, ht.symm⟩).elim⟩
  · intro h frame
    exact onMessage_of_roomIdFromChannel h _

/-- A prefix that extends another one's is reached through a room id. -/
theorem isolated_tenants_leak :
    ¬ ∀ (reg reg' : RedisRoomRegistry) (roomId : Str), reg.channelPrefix ≠ reg'.channelPrefix →
      reg'.roomIdFromChannel (reg.channelName roomId) = none := by
  intro h
  have hnone := h ⟨.empty 16 none, ['a', ':'], ⟨List.replicate 16 1, rfl⟩⟩
    ⟨.empty 16 none, ['a', ':', 'b', ':'], ⟨List.replicate 16 2, rfl⟩⟩ ['b', ':', 'l'] (by decide)
  revert hnone
  decide

end RedisRoomRegistry

end WsKit
