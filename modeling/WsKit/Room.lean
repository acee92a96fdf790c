import WsKit.Base.Channel
import WsKit.Codec
import WsKit.Stats

/-!
# Rooms

A room is a broadcast domain with a roster of participants. The recorder it was created with
is shared with its manager, so a broadcast takes the recorder's value and returns the next.
-/

namespace WsKit

open Base

/-- A single broadcast room; the roster maps connection ids to display names. -/
structure Room where
  id : Str
  tx : Channel Frame
  participants : Map UInt32 Str

namespace Room

variable [ChannelApi Frame]

/-- A new room with an empty roster and no receivers; a capacity that the channel does not
accept panics. -/
def withStats (id : Str) (capacity : ℕ) : Option Room :=
  (Channel.channel capacity).map fun tx => { id, tx, participants := ∅ }

/-- Subscribe to this room's messages. -/
def subscribe (room : Room) : ReceiverId × Room :=
  (room.tx.subscribe.1, { room with tx := room.tx.subscribe.2 })

/-- Drop a receiver of this room. -/
def dropReceiver (room : Room) (rx : ReceiverId) : Room :=
  { room with tx := room.tx.dropReceiver rx }

/-- Broadcast a frame to all receivers. Without receivers the frame is lost and counted as a
drop. The product of length and receivers wraps here as in builds without overflow checks; builds
with them panic when it is `2 ^ 64` or more, after the send. -/
def broadcast (room : Room) (stats : Option StatsRecorder) (frame : Frame) :
    Outcome WsError ℕ × Room × Option StatsRecorder :=
  match room.tx.send frame with
  | (some n, tx) =>
    (.ok n, { room with tx }, stats.map fun stats =>
      stats.recordRoomMessageOut room.id (.ofNat n) (.ofNat frame.len * .ofNat n))
  | (none, _) =>
    (.error (.failed .broadcastFull), room, stats.map fun stats => stats.recordRoomDrop room.id)

/-- Add a participant, or refresh its display name. -/
def join (room : Room) (participantId : UInt32) (name : Str) : Room :=
  { room with participants := room.participants.insert participantId name }

/-- Remove a participant. Returns true if it was present. -/
def leave (room : Room) (participantId : UInt32) : Bool × Room :=
  ((room.participants.lookup participantId).isSome,
    { room with participants := room.participants.erase participantId })

/-- Number of tracked participants. -/
def participantCount (room : Room) : ℕ := Map.size room.participants

/-- Number of active receivers. -/
def receiverCount (room : Room) : ℕ := room.tx.receiverCount

/-- The numbers of participants and of receivers. -/
def occupancy (room : Room) : ℕ × ℕ := (room.participantCount, room.receiverCount)

/-- True if there are no participants and no receivers. -/
def isEmpty (room : Room) : Bool := room.participantCount = 0 && room.receiverCount = 0

/-- With an accepted capacity a room is made with nobody in it and nothing sent. -/
theorem withStats_of_accepted (id : Str) {capacity : ℕ} (h : AcceptedCapacity Frame capacity) :
    withStats id capacity = some ⟨id, ⟨capacity, 0, ∅, []⟩, ∅⟩ := by
  rw [withStats, Channel.channel_of_accepted h, Option.map_some]

/-- Making a room with any other capacity panics. -/
theorem withStats_of_not_accepted (id : Str) {capacity : ℕ} (h : ¬ AcceptedCapacity Frame capacity) :
    withStats id capacity = none := by
  rw [withStats, Channel.channel_of_not_accepted h, Option.map_none]

/-- As many receivers are counted as live. -/
theorem receiverCount_eq (room : Room) : room.receiverCount = Map.size room.tx.receivers :=
  Channel.receiverCount_eq room.tx

/-- An empty room has occupancy zero. -/
theorem isEmpty_iff {room : Room} : room.isEmpty = true ↔ room.occupancy = (0, 0) := by
  rw [isEmpty, Bool.and_eq_true, decide_eq_true_iff, decide_eq_true_iff, occupancy, Prod.mk.injEq]

/-- A new room is empty. -/
theorem isEmpty_new (id : Str) (capacity : ℕ) :
    (⟨id, ⟨capacity, 0, ∅, []⟩, ∅⟩ : Room).isEmpty = true := by
  rw [isEmpty_iff, occupancy, receiverCount_eq]
  rfl

/-- A broadcast without receivers changes only the recorder, and fails. -/
theorem broadcast_of_receiverCount_eq_zero {room : Room} (h : room.receiverCount = 0)
    (stats : Option StatsRecorder) (frame : Frame) :
    room.broadcast stats frame = (.error (.failed .broadcastFull), room,
      stats.map fun stats => stats.recordRoomDrop room.id) := by
  simp only [broadcast, Channel.send_of_nobody h]

/-- A broadcast with receivers sends the frame to each of them and returns their number. -/
theorem broadcast_of_receiverCount_ne_zero {room : Room} (h : room.receiverCount ≠ 0)
    (stats : Option StatsRecorder) (frame : Frame) :
    room.broadcast stats frame = (.ok room.receiverCount,
      { room with tx := { room.tx with sent := room.tx.sent ++ [frame] } },
      stats.map fun stats => stats.recordRoomMessageOut room.id (.ofNat room.receiverCount)
        (.ofNat frame.len * .ofNat room.receiverCount)) := by
  simp only [broadcast, Channel.send_of_receivers h, receiverCount]

/-- What a broadcast does to the room does not depend on the recorder. -/
theorem broadcast_room (room : Room) (stats : Option StatsRecorder) (frame : Frame) :
    (room.broadcast stats frame).2.1 = (room.broadcast none frame).2.1 := by
  by_cases h : room.receiverCount = 0
  · rw [broadcast_of_receiverCount_eq_zero h, broadcast_of_receiverCount_eq_zero h]
  · rw [broadcast_of_receiverCount_ne_zero h, broadcast_of_receiverCount_ne_zero h]

/-- A broadcast leaves the room gauge alone. -/
theorem broadcast_rooms (room : Room) (stats : Option StatsRecorder) (frame : Frame) :
    (room.broadcast stats frame).2.2.map (fun stats => stats.snapshot.rooms) =
      stats.map fun stats => stats.snapshot.rooms := by
  by_cases h : room.receiverCount = 0
  · rw [broadcast_of_receiverCount_eq_zero h, Option.map_map]
    rfl
  · rw [broadcast_of_receiverCount_ne_zero h, Option.map_map]
    rfl

/-- A broadcast leaves the identity, the roster and the receivers alone. -/
theorem broadcast_room_eq (room : Room) (stats : Option StatsRecorder) (frame : Frame) :
    ∃ sent, (room.broadcast stats frame).2.1 =
      { room with tx := { room.tx with sent := sent } } := by
  by_cases h : room.receiverCount = 0
  · rw [broadcast_of_receiverCount_eq_zero h]
    exact ⟨room.tx.sent, rfl⟩
  · rw [broadcast_of_receiverCount_ne_zero h]
    exact ⟨room.tx.sent ++ [frame], rfl⟩

end Room

end WsKit
