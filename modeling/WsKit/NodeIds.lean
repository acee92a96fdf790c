import WsKit.Base.LittleEndian
import WsKit.RemoteInput

/-!
# Publisher ids that collide

A node id is made of the outputs of two randomly seeded hashers, and any two nodes may draw the
same one. What one node publishes is then an echo to the other, which drops it: a message reaches
the receivers of a hosted room exactly when the two ids differ.
-/

namespace WsKit

open Base

/-- The node id made of the outputs of the two hashers. -/
def generateNodeId (hi lo : UInt64) : NodeId :=
  ⟨toLeBytes hi ++ toLeBytes lo, by
    rw [List.length_append, toLeBytes_length, toLeBytes_length]⟩

/-- Ids collide exactly when both hashers of one node agree with those of the other. -/
theorem generateNodeId_inj {hi lo hi' lo' : UInt64} :
    generateNodeId hi lo = generateNodeId hi' lo' ↔ hi = hi' ∧ lo = lo' := by
  constructor
  · intro h
    have hparts := List.append_inj (congrArg Subtype.val h)
      ((toLeBytes_length hi).trans (toLeBytes_length hi').symm)
    exact ⟨toLeBytes_inj.1 hparts.1, toLeBytes_inj.1 hparts.2⟩
  · rintro ⟨rfl, rfl⟩
    rfl

namespace RedisRoomRegistry

section AnyChannel

variable [ChannelApi Frame]

/-- A message on a room's channel reaches the receivers of the hosted room: applying it returns
their number, and each of them is sent the frame behind what it was sent before. -/
def DeliversMessage (reg : RedisRoomRegistry) (message : Str × Bytes) (ref : RoomRef) (room : Room)
    (frame : Frame) : Prop :=
  reg.roomIdFromChannel message.1 = some room.id ∧
    ∃ m', reg.applyRemote room.id message.2 =
        some (.ok (some room.receiverCount), { reg with localRooms := m' }) ∧
      Delivered reg.localRooms m' ref room frame

/-- A registry drops what one with its own id published. -/
theorem applyRemote_publishCommand_of_eq {publisher reg : RedisRoomRegistry}
    (hid : publisher.nodeId = reg.nodeId) (frame : Frame) (roomId : Str) :
    reg.applyRemote roomId (publisher.publishCommand frame roomId).2 = some (.ok none, reg) := by
  rw [publishCommand, hid]
  exact applyRemote_of_echo (decodeEnvelope_encodeEnvelope reg.nodeId frame) roomId

/-- A registry delivers what one with another id published to a room with receivers. -/
theorem deliversMessage_of_ne {publisher reg : RedisRoomRegistry} (hwell : reg.localRooms.WellFormed)
    (hsame : publisher.channelPrefix = reg.channelPrefix) (hid : publisher.nodeId ≠ reg.nodeId)
    {roomId : Str} {ref : RoomRef} {room : Room} (hget : reg.localRooms.get roomId = some ref)
    (hroom : reg.localRooms.room ref = some room) (hreceivers : room.receiverCount ≠ 0)
    (frame : Frame) : reg.DeliversMessage (publisher.publishCommand frame roomId) ref room frame := by
  obtain ⟨found, m', hfound, hroomId, happlied, hdelivered⟩ := applyRemote_delivers hwell
    (decodeEnvelope_encodeEnvelope publisher.nodeId frame) hid hget
  obtain rfl : found = room := Option.some.inj (hfound.symm.trans hroom)
  rw [if_neg hreceivers] at happlied
  refine ⟨?_, m', ?_, hdelivered⟩
  · rw [hroomId]
    exact roomIdFromChannel_channelName hsame roomId
  · rw [hroomId]
    exact happlied

/-- In every reachable registry that hosts a room with receivers, what another registry with the
same prefix publishes to the room is delivered to it exactly when the two ids differ. With equal
ids the message is taken for an echo, and nothing changes. -/
theorem deliversMessage_iff_nodeId_ne {defaultCapacity : ℕ} {stats : Option StatsRecorder}
    {channelPrefix : Str} {nodeId : NodeId} {es : List Event} {reg : RedisRoomRegistry}
    {tr : List RoomResult}
    (hrun : machine.run es (fromParts defaultCapacity stats channelPrefix nodeId, []) =
      some (reg, tr))
    (publisher : RedisRoomRegistry) (hsame : publisher.channelPrefix = reg.channelPrefix)
    {roomId : Str} {ref : RoomRef} {room : Room} (hget : reg.localRooms.get roomId = some ref)
    (hroom : reg.localRooms.room ref = some room) (hreceivers : room.receiverCount ≠ 0)
    (frame : Frame) :
    (reg.DeliversMessage (publisher.publishCommand frame roomId) ref room frame ↔
      publisher.nodeId ≠ reg.nodeId) ∧
    (publisher.nodeId = reg.nodeId →
      reg.applyRemote roomId (publisher.publishCommand frame roomId).2 = some (.ok none, reg)) := by
  have hwell := wellFormed_of_run hrun
  have hecho : publisher.nodeId = reg.nodeId →
      reg.applyRemote roomId (publisher.publishCommand frame roomId).2 = some (.ok none, reg) :=
    fun hid => applyRemote_publishCommand_of_eq hid frame roomId
  refine ⟨⟨?_, ?_⟩, hecho⟩
  · rintro ⟨-, m', happlied, -⟩ hid
    obtain ⟨found, hfound, hroomId⟩ := hwell.mapped roomId ref hget
    obtain rfl : found = room := Option.some.inj (hfound.symm.trans hroom)
    rw [hroomId, hecho hid] at happlied
    cases happlied
  · intro hid
    exact deliversMessage_of_ne hwell hsame hid hget hroom hreceivers frame

end AnyChannel

/-- A node whose lobby has one receiver. -/
def listeningLobby : List Event := [.call (.getOrCreate ['l']), .call (.subscribe 0)]

/-- The lobby of such a node. -/
theorem run_listeningLobby : ∃ reg tr room,
    machine.run listeningLobby (fromParts 16 none ['p', ':'] (generateNodeId 1 2), []) =
      some (reg, tr) ∧
    reg.nodeId = generateNodeId 1 2 ∧ reg.channelPrefix = ['p', ':'] ∧
    reg.localRooms.get ['l'] = some 0 ∧ reg.localRooms.room 0 = some room ∧ room.id = ['l'] ∧
    room.receiverCount ≠ 0 := by
  have hseen : (machine.run listeningLobby
      (fromParts 16 none ['p', ':'] (generateNodeId 1 2), [])).map (fun c => (c.1.nodeId,
        c.1.channelPrefix, c.1.localRooms.get ['l'],
        (c.1.localRooms.room 0).map Room.receiverCount)) =
      some (generateNodeId 1 2, ['p', ':'], some 0, some 1) := by decide
  obtain ⟨⟨reg, tr⟩, hrun, heq⟩ := Option.map_eq_some_iff.1 hseen
  simp only [Prod.mk.injEq] at heq
  obtain ⟨hid, hprefix, hget, hcount⟩ := heq
  obtain ⟨room, hroom, hone⟩ := Option.map_eq_some_iff.1 hcount
  obtain ⟨found, hfound, hroomId⟩ := (wellFormed_of_run hrun).mapped ['l'] 0 hget
  obtain rfl : found = room := Option.some.inj (hfound.symm.trans hroom)
  exact ⟨reg, tr, found, hrun, hid, hprefix, hget, hroom, hroomId, by rw [hone]; decide⟩

/-- A node that has drawn other hashes than the publisher gets its greeting. -/
theorem deliversMessage_iff_nodeId_ne_lobby : ∃ reg tr room,
    machine.run listeningLobby (fromParts 16 none ['p', ':'] (generateNodeId 1 2), []) =
      some (reg, tr) ∧
    reg.DeliversMessage ((fromParts 16 none ['p', ':'] (generateNodeId 1 3)).publishCommand
      (.text ['h', 'i']) ['l']) 0 room (.text ['h', 'i']) := by
  obtain ⟨reg, tr, room, hrun, hid, hprefix, hget, hroom, -, hreceivers⟩ := run_listeningLobby
  refine ⟨reg, tr, room, hrun, ?_⟩
  refine (deliversMessage_iff_nodeId_ne hrun _ hprefix.symm hget hroom hreceivers _).1.2 ?_
  rw [hid]
  exact fun h => absurd (generateNodeId_inj.1 h).2 (by decide)

/-- A node that has drawn the same hashes as the publisher loses its greeting. -/
theorem collidingId_loses : ∃ reg tr room,
    machine.run listeningLobby (fromParts 16 none ['p', ':'] (generateNodeId 1 2), []) =
      some (reg, tr) ∧
    reg.channelPrefix = ['p', ':'] ∧ reg.localRooms.get ['l'] = some 0 ∧
    reg.localRooms.room 0 = some room ∧ room.receiverCount ≠ 0 ∧
    ¬ reg.DeliversMessage ((fromParts 16 none ['p', ':'] (generateNodeId 1 2)).publishCommand
      (.text ['h', 'i']) ['l']) 0 room (.text ['h', 'i']) := by
  obtain ⟨reg, tr, room, hrun, hid, hprefix, hget, hroom, hroomId, hreceivers⟩ := run_listeningLobby
  refine ⟨reg, tr, room, hrun, hprefix, hget, hroom, hreceivers, ?_⟩
  rintro ⟨-, m', happlied, -⟩
  rw [hroomId, applyRemote_publishCommand_of_eq hid.symm] at happlied
  cases happlied

end RedisRoomRegistry

end WsKit
