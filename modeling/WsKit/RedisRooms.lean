import WsKit.Envelope
import WsKit.RoomManager

/-!
# Rooms across nodes over Redis pub/sub

A registry is a local room manager with a channel prefix and a publisher id. Its calls are
written as their accesses to the local rooms and to Redis: a broadcast asks for the local
room, sends to it and publishes; a received message is located, which is where malformed
messages, the node's own echoes and rooms that are not hosted end, and then sent to the room.
-/

namespace WsKit

open Base

/-- A multi-node registry. -/
structure RedisRoomRegistry where
  localRooms : RoomManager
  channelPrefix : Str
  nodeId : NodeId

namespace RedisRoomRegistry

/-- Channel name for a room id. -/
def channelName (reg : RedisRoomRegistry) (roomId : Str) : Str := reg.channelPrefix ++ roomId

/-- Room id carried by a channel name, if it matches the prefix. -/
def roomIdFromChannel (reg : RedisRoomRegistry) (channel : Str) : Option Str :=
  stripPrefix reg.channelPrefix channel

/-- The pattern that the subscriber loop subscribes to. -/
def pattern (reg : RedisRoomRegistry) : Str := reg.channelPrefix ++ ['*']

/-- The channel and the payload that a publish sends. -/
def publishCommand (reg : RedisRoomRegistry) (frame : Frame) (roomId : Str) : Str × Bytes :=
  (reg.channelName roomId, encodeEnvelope reg.nodeId frame)

/-- The local part of a broadcast's result: no local receivers is fine. -/
def localCount : Outcome WsError ℕ → Outcome WsError ℕ
  | .ok n => .ok n
  | .error (.failed .broadcastFull) => .ok 0
  | .error e => .error e

/-- The room that an envelope is to be delivered to, and the frame: none for the node's own
echo and for a room that it does not host. -/
def locate (reg : RedisRoomRegistry) (roomId : Str) (envelope : Bytes) :
    Outcome WsError (Option (RoomRef × Frame)) := do
  let (publisher, frame) ← decodeEnvelope envelope
  if publisher = reg.nodeId then
    return none
  else
    return (reg.localRooms.get roomId).map fun ref => (ref, frame)

/-- What the subscriber loop makes of a message: other channels and malformed envelopes are
dropped. -/
def onMessage (reg : RedisRoomRegistry) (channel : Str) (payload : Bytes) :
    Option (RoomRef × Frame) :=
  (reg.roomIdFromChannel channel).bind fun roomId =>
    match reg.locate roomId payload with
    | .ok found => found
    | .error _ => none

/-- Channel names carry the room id to every registry with the same prefix. -/
theorem roomIdFromChannel_channelName {reg reg' : RedisRoomRegistry}
    (hsame : reg.channelPrefix = reg'.channelPrefix) (roomId : Str) :
    reg'.roomIdFromChannel (reg.channelName roomId) = some roomId := by
  rw [roomIdFromChannel, channelName, hsame, stripPrefix_append]

/-- A registry that receives what another one with its prefix published delivers the same frame
to the room of the same id, unless it has the publisher's id or does not host the room. -/
theorem onMessage_publishCommand {reg reg' : RedisRoomRegistry}
    (hsame : reg.channelPrefix = reg'.channelPrefix) (frame : Frame) (roomId : Str) :
    reg'.onMessage (reg.publishCommand frame roomId).1 (reg.publishCommand frame roomId).2 =
      if reg.nodeId = reg'.nodeId then none
      else (reg'.localRooms.get roomId).map fun ref => (ref, frame) := by
  rw [onMessage, publishCommand, roomIdFromChannel_channelName hsame, Option.bind_some, locate,
    decodeEnvelope_encodeEnvelope]
  by_cases hself : reg.nodeId = reg'.nodeId
  · rw [if_pos hself]
    simp only [bind, Except.bind, hself, if_true, pure, Except.pure]
  · rw [if_neg hself]
    simp only [bind, Except.bind, hself, if_false, pure, Except.pure]

/-- The local part of a broadcast never fails: it counts the receivers. -/
theorem localCount_broadcast [ChannelApi Frame] (room : Room) (stats : Option StatsRecorder) (frame : Frame) :
    localCount (room.broadcast stats frame).1 = .ok room.receiverCount := by
  by_cases h : room.receiverCount = 0
  · rw [Room.broadcast_of_receiverCount_eq_zero h, h]
    rfl
  · rw [Room.broadcast_of_receiverCount_ne_zero h]
    rfl

end RedisRoomRegistry

end WsKit
