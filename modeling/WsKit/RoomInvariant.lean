import WsKit.RoomManager

/-!
# What every call on a room manager preserves

Each id is mapped to a room made for it, channels know their receivers, and the recorder's
gauge is the number of mapped rooms.
-/

namespace WsKit

open Base

namespace RoomManager

/-- Ids are mapped to rooms made for them, and the rooms' channels are valid. -/
structure WellFormed (m : RoomManager) : Prop where
  mapped : ∀ roomId ref, m.get roomId = some ref → ∃ room, m.room ref = some room ∧ room.id = roomId
  channels : ∀ ref room, m.room ref = some room → room.tx.Valid

/-- A recorder's gauge, where there is a recorder, is the number of mapped rooms. -/
def Metered (m : RoomManager) : Prop := ∀ n, m.roomsGauge = some n → n = m.roomCount

variable {m : RoomManager}

/-- Different ids are mapped to different rooms. -/
theorem WellFormed.get_injective (h : m.WellFormed) {roomId roomId' : Str} {ref : RoomRef}
    (hget : m.get roomId = some ref) (hget' : m.get roomId' = some ref) : roomId = roomId' := by
  obtain ⟨room, hroom, hid⟩ := h.mapped roomId ref hget
  obtain ⟨room', hroom', hid'⟩ := h.mapped roomId' ref hget'
  rw [hroom, Option.some.injEq] at hroom'
  rw [← hid, ← hid', hroom']

/-- Each mapped room is listed once. -/
theorem WellFormed.nodup_values (h : m.WellFormed) : (Map.values m.rooms).Nodup :=
  Map.nodup_values_of_injective fun _ _ _ => h.get_injective

/-- Unmapping ids keeps the manager well formed. -/
theorem WellFormed.restrict (h : m.WellFormed) {rooms : Map Str RoomRef}
    {stats : Option StatsRecorder}
    (hsub : ∀ roomId ref, rooms.lookup roomId = some ref → m.get roomId = some ref) :
    WellFormed { m with rooms, stats } :=
  ⟨fun roomId ref hget => h.mapped roomId ref (hsub roomId ref hget), h.channels⟩

/-- Removing an id keeps the manager well formed. -/
theorem WellFormed.remove (h : m.WellFormed) (roomId : Str) : (m.remove roomId).2.WellFormed := by
  cases hget : m.get roomId with
  | none =>
    rw [remove_of_get_none hget]
    exact h
  | some ref =>
    rw [remove_of_get hget]
    apply h.restrict
    exact fun _ _ hlookup => (Map.lookup_erase_eq_some_iff.1 hlookup).2

/-- What a sweep lists. -/
theorem mem_listed {p : Room → Bool} {roomId : Str} :
    roomId ∈ m.listed p ↔
      ∃ ref room, m.get roomId = some ref ∧ m.room ref = some room ∧ p room = true := by
  rw [listed, Map.mem_keysWhere]
  refine ⟨fun ⟨ref, hget, hany⟩ => ?_, fun ⟨ref, room, hget, hroom, hp⟩ => ⟨ref, hget, ?_⟩⟩
  · obtain ⟨room, hroom, hp⟩ := (Option.any_eq_true _ _).1 hany
    exact ⟨ref, room, hget, hroom, hp⟩
  · rw [hroom]
    exact hp

/-- A sweep removes the number of rooms that it lists. -/
theorem size_eraseAll_listed (m : RoomManager) (p : Room → Bool) :
    Map.size (Map.eraseAll m.rooms (m.listed p)) + (m.listed p).length = m.roomCount := by
  apply Map.size_eraseAll (Map.nodup_keysWhere _ _)
  intro roomId hlisted
  obtain ⟨ref, _, hget, _⟩ := mem_listed.1 hlisted
  exact Map.mem_iff_lookup.2 ⟨ref, hget⟩

/-- A sweep keeps the manager well formed. -/
theorem WellFormed.sweep (h : m.WellFormed) (p : Room → Bool) : (m.sweep p).2.WellFormed := by
  rw [sweep_eq]
  apply h.restrict
  exact fun _ _ hlookup => (Map.lookup_eraseAll_eq_some_iff.1 hlookup).2

/-- Changing a room keeps the manager well formed when its id stays and its channel is valid. -/
theorem WellFormed.modifyRoom (h : m.WellFormed) {ref : RoomRef} {room : Room}
    (hroom : m.room ref = some room) {f : Room → Room} (hid : (f room).id = room.id)
    (hchannel : room.tx.Valid → (f room).tx.Valid) : (m.modifyRoom ref f).WellFormed := by
  refine ⟨?_, ?_⟩
  · intro roomId ref' hget
    obtain ⟨room', hroom', hroomId⟩ := h.mapped roomId ref' hget
    rw [room_modifyRoom, hroom']
    split
    · next heq =>
      rw [heq, hroom, Option.some.injEq] at hroom'
      subst hroom'
      exact ⟨f room, rfl, hid.trans hroomId⟩
    · exact ⟨room', rfl, hroomId⟩
  · intro ref' room' hroom'
    rw [room_modifyRoom] at hroom'
    split at hroom'
    · next heq =>
      rw [heq, hroom, Option.map_some, Option.some.injEq] at hroom'
      subst hroom'
      exact hchannel (h.channels ref room hroom)
    · exact h.channels ref' room' hroom'

/-- Making and mapping a room keeps the manager well formed. -/
theorem WellFormed.withRoom (h : m.WellFormed) (roomId : Str) (capacity : ℕ) :
    (m.withRoom roomId capacity).WellFormed := by
  refine ⟨?_, ?_⟩
  · intro roomId' ref hget'
    rw [room_withRoom]
    rw [RoomManager.get, RoomManager.withRoom, Map.lookup_insert] at hget'
    split at hget'
    · next heq =>
      rw [if_pos (Option.some.inj hget').symm]
      exact ⟨_, rfl, heq.symm⟩
    · obtain ⟨room, hroom, hid⟩ := h.mapped roomId' ref hget'
      rw [if_neg (ne_length_of_room hroom)]
      exact ⟨room, hroom, hid⟩
  · intro ref room hroom
    rw [room_withRoom] at hroom
    split at hroom
    · obtain rfl := Option.some.inj hroom
      exact Channel.valid_mk_empty _ _ _
    · exact h.channels ref room hroom

/-- An empty manager is well formed. -/
theorem wellFormed_empty (defaultCapacity : ℕ) (stats : Option StatsRecorder) :
    (empty defaultCapacity stats).WellFormed := by
  refine ⟨?_, ?_⟩
  · intro roomId ref hget
    cases hget
  · intro ref room hroom
    cases hroom

/-! ### The gauge -/

/-- A recorder's gauge on a metered manager. -/
theorem Metered.snapshot_rooms (h : m.Metered) {recorder : StatsRecorder}
    (hstats : m.stats = some recorder) : recorder.snapshot.rooms = m.roomCount :=
  h _ (by rw [roomsGauge, hstats, Option.map_some])

/-- Removing an id keeps the manager metered. -/
theorem Metered.remove (h : m.Metered) (roomId : Str) : (m.remove roomId).2.Metered := by
  cases hget : m.get roomId with
  | none =>
    rw [remove_of_get_none hget]
    exact h
  | some ref =>
    rw [remove_of_get hget]
    intro n hn
    obtain ⟨recorder, hrecorder, rfl⟩ := Option.map_eq_some_iff.1 hn
    obtain ⟨old, hold, rfl⟩ := Option.map_eq_some_iff.1 hrecorder
    have hsize := Map.size_erase (Map.mem_iff_lookup.2 ⟨ref, hget⟩)
    rw [StatsRecorder.snapshot_rooms_roomClosed, h.snapshot_rooms hold, roomCount, ← hsize,
      Nat.add_sub_cancel, roomCount]

/-- A sweep keeps the manager metered. -/
theorem Metered.sweep (h : m.Metered) (p : Room → Bool) : (m.sweep p).2.Metered := by
  rw [sweep_eq]
  intro n hn
  obtain ⟨recorder, hrecorder, rfl⟩ := Option.map_eq_some_iff.1 hn
  obtain ⟨old, hold, rfl⟩ := Option.map_eq_some_iff.1 hrecorder
  have hsize := size_eraseAll_listed m p
  rw [StatsRecorder.snapshot_rooms_iterate_roomClosed, h.snapshot_rooms hold, ← hsize, roomCount,
    Nat.add_sub_cancel]

/-- Making and mapping a room keeps the manager metered. -/
theorem Metered.withRoom (h : m.Metered) {roomId : Str} (hget : m.get roomId = none)
    (capacity : ℕ) : (m.withRoom roomId capacity).Metered := by
  intro n hn
  obtain ⟨recorder, hrecorder, rfl⟩ := Option.map_eq_some_iff.1 hn
  obtain ⟨old, hold, rfl⟩ := Option.map_eq_some_iff.1 hrecorder
  rw [StatsRecorder.snapshot_rooms_roomOpened, h.snapshot_rooms hold, roomCount, roomCount,
    RoomManager.withRoom, Map.size_insert (AList.lookup_eq_none.1 hget)]

/-- A manager with a new recorder is metered. -/
theorem metered_withStats (broadcastCapacity : ℕ) : (withStats broadcastCapacity .new).Metered := by
  intro n hn
  exact (Option.some.inj hn).symm

/-! ### Using a room -/

variable [ChannelApi Frame]

/-- A call on a handle keeps the room's channel valid. -/
theorem onRoom_valid (op : RoomOp) {room : Room} (h : room.tx.Valid) :
    (op.onRoom room).tx.Valid := by
  cases op with
  | subscribe ref => exact h.subscribe
  | dropReceiver ref rx => exact h.dropReceiver rx
  | broadcast ref frame =>
    change (room.broadcast none frame).2.1.tx.Valid
    by_cases hnobody : room.receiverCount = 0
    · rw [Room.broadcast_of_receiverCount_eq_zero hnobody]
      exact h
    · rw [Room.broadcast_of_receiverCount_ne_zero hnobody]
      exact h.append frame
  | _ => exact h

/-- A call on a handle keeps the manager well formed. -/
theorem WellFormed.use (h : m.WellFormed) {op : RoomOp} {ref : RoomRef} {result : RoomResult}
    {m' : RoomManager} (hop : op.handle = some ref) (hcall : m.call op = some (result, m')) :
    m'.WellFormed := by
  obtain ⟨room, stats, hroom, rfl, _⟩ := call_of_handle hop hcall
  have hmodified := h.modifyRoom hroom (onRoom_shell op room).1 (onRoom_valid op)
  exact hmodified.restrict fun _ _ hget => hget

/-- A call on a handle keeps the manager metered. -/
theorem Metered.use (h : m.Metered) {op : RoomOp} {ref : RoomRef} {result : RoomResult}
    {m' : RoomManager} (hop : op.handle = some ref) (hcall : m.call op = some (result, m')) :
    m'.Metered := by
  obtain ⟨room, stats, _, rfl, hstats⟩ := call_of_handle hop hcall
  intro n hn
  exact h n (hstats.symm.trans hn)

end RoomManager

end WsKit
