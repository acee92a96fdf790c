import WsKit.Base.Map
import WsKit.Base.Str
import Mathlib.Data.UInt
import Mathlib.Logic.Function.Iterate

/-!
# The stats recorder

All clones of a recorder share one set of counters, which the model passes along as a value.
Traffic counters wrap as `u64`. The two gauges count connections and rooms that exist in
memory at one time, so they are natural numbers here.
-/

namespace WsKit

open Base

/-- Traffic counters of a single room. -/
structure RoomCounters where
  messagesIn : UInt64 := 0
  messagesOut : UInt64 := 0
  bytesIn : UInt64 := 0
  bytesOut : UInt64 := 0
  drops : UInt64 := 0
  deriving DecidableEq

/-- The global counters. -/
structure Globals where
  connections : ℕ := 0
  rooms : ℕ := 0
  messagesIn : UInt64 := 0
  messagesOut : UInt64 := 0
  bytesIn : UInt64 := 0
  bytesOut : UInt64 := 0
  drops : UInt64 := 0
  deriving DecidableEq

/-- The counters behind a recorder handle. -/
structure StatsRecorder where
  globals : Globals := {}
  rooms : Map Str RoomCounters := ∅

/-- The snapshot of a recorder; the per-room counters are a finite map, whose order carries
nothing. -/
structure Stats where
  connections : ℕ
  rooms : ℕ
  messagesIn : UInt64
  messagesOut : UInt64
  bytesIn : UInt64
  bytesOut : UInt64
  drops : UInt64
  perRoom : Map Str RoomCounters

namespace StatsRecorder

/-- A recorder with all counters at zero. -/
def new : StatsRecorder := {}

/-- Record a connection accepted; the new count is returned. -/
def incConnections (stats : StatsRecorder) : ℕ × StatsRecorder :=
  (stats.globals.connections + 1,
    { stats with globals.connections := stats.globals.connections + 1 })

/-- Record a connection closed, saturating at zero; the new count is returned. -/
def decConnections (stats : StatsRecorder) : ℕ × StatsRecorder :=
  (stats.globals.connections - 1,
    { stats with globals.connections := stats.globals.connections - 1 })

/-- Record a room coming into existence. -/
def roomOpened (stats : StatsRecorder) : StatsRecorder :=
  { stats with globals.rooms := stats.globals.rooms + 1 }

/-- Record a room removed, saturating at zero. -/
def roomClosed (stats : StatsRecorder) : StatsRecorder :=
  { stats with globals.rooms := stats.globals.rooms - 1 }

/-- Record an inbound message of `bytes` payload bytes. -/
def recordMessageIn (stats : StatsRecorder) (bytes : UInt64) : StatsRecorder :=
  { stats with
    globals.messagesIn := stats.globals.messagesIn + 1
    globals.bytesIn := stats.globals.bytesIn + bytes }

/-- Record `count` outbound messages of `bytes` payload bytes in all. -/
def recordMessageOut (stats : StatsRecorder) (count bytes : UInt64) : StatsRecorder :=
  { stats with
    globals.messagesOut := stats.globals.messagesOut + count
    globals.bytesOut := stats.globals.bytesOut + bytes }

/-- Record a broadcast that found no live receiver. -/
def recordDrop (stats : StatsRecorder) : StatsRecorder :=
  { stats with globals.drops := stats.globals.drops + 1 }

/-- Update the counters of a room, which start at zero. -/
def updateRoom (stats : StatsRecorder) (room : Str) (f : RoomCounters → RoomCounters) :
    StatsRecorder :=
  { stats with rooms := stats.rooms.insert room (f ((stats.rooms.lookup room).getD {})) }

/-- Record an inbound message attributed to a room, globally as well. -/
def recordRoomMessageIn (stats : StatsRecorder) (room : Str) (bytes : UInt64) : StatsRecorder :=
  (stats.updateRoom room fun counters =>
    { counters with
      messagesIn := counters.messagesIn + 1
      bytesIn := counters.bytesIn + bytes }).recordMessageIn bytes

/-- Record a room broadcast reaching `count` receivers, globally as well. -/
def recordRoomMessageOut (stats : StatsRecorder) (room : Str) (count bytes : UInt64) :
    StatsRecorder :=
  (stats.updateRoom room fun counters =>
    { counters with
      messagesOut := counters.messagesOut + count
      bytesOut := counters.bytesOut + bytes }).recordMessageOut count bytes

/-- Record a drop attributed to a room, globally as well. -/
def recordRoomDrop (stats : StatsRecorder) (room : Str) : StatsRecorder :=
  (stats.updateRoom room fun counters =>
    { counters with drops := counters.drops + 1 }).recordDrop

/-- Read all counters. -/
def snapshot (stats : StatsRecorder) : Stats :=
  { connections := stats.globals.connections
    rooms := stats.globals.rooms
    messagesIn := stats.globals.messagesIn
    messagesOut := stats.globals.messagesOut
    bytesIn := stats.globals.bytesIn
    bytesOut := stats.globals.bytesOut
    drops := stats.globals.drops
    perRoom := stats.rooms }

/-- Opening a room raises the room gauge. -/
@[simp] theorem snapshot_rooms_roomOpened (stats : StatsRecorder) :
    stats.roomOpened.snapshot.rooms = stats.snapshot.rooms + 1 := rfl

/-- Closing a room lowers the room gauge, but not below zero. -/
@[simp] theorem snapshot_rooms_roomClosed (stats : StatsRecorder) :
    stats.roomClosed.snapshot.rooms = stats.snapshot.rooms - 1 := rfl

/-- Closing several rooms lowers the room gauge by their number, but not below zero. -/
theorem snapshot_rooms_iterate_roomClosed (stats : StatsRecorder) (n : ℕ) :
    (roomClosed^[n] stats).snapshot.rooms = stats.snapshot.rooms - n := by
  induction n generalizing stats with
  | zero => rfl
  | succ n ih =>
    rw [Function.iterate_succ_apply, ih, snapshot_rooms_roomClosed]
    omega

end StatsRecorder

end WsKit
