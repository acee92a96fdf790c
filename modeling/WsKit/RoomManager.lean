import WsKit.Base.Machine
import WsKit.Room

/-!
# The room manager

Rooms live on a heap and are shared by reference, so a caller's handle keeps naming its room
after the manager has let it go. Each method is written as the sequence of its accesses to
the map and the recorder; these accesses are the atomic steps of concurrent calls.
-/

namespace WsKit

open Base

/-- A shared reference to a room: its position on the heap. -/
abbrev RoomRef := ℕ

/-- The manager's map, its settings, and the heap of all rooms made so far. -/
structure RoomManager where
  rooms : Map Str RoomRef
  defaultCapacity : ℕ
  stats : Option StatsRecorder
  heap : List Room

namespace RoomManager

/-- An empty manager. -/
def empty (defaultCapacity : ℕ) (stats : Option StatsRecorder) : RoomManager :=
  ⟨∅, defaultCapacity, stats, []⟩

/-- An empty manager with default capacity 1024. -/
def new : RoomManager := empty 1024 none

/-- An empty manager whose default capacity comes from the configuration. -/
def withConfig (broadcastCapacity : ℕ) : RoomManager := empty broadcastCapacity none

/-- An empty manager wired to a recorder. -/
def withStats (broadcastCapacity : ℕ) (stats : StatsRecorder) : RoomManager :=
  empty broadcastCapacity (some stats)

/-- The room a reference points to. -/
def room (m : RoomManager) (ref : RoomRef) : Option Room := m.heap[ref]?

section Methods

variable [ChannelApi Frame]

/-! ### Accesses to the map and the recorder -/

/-- Get a room if it exists. -/
def get (m : RoomManager) (roomId : Str) : Option RoomRef := m.rooms.lookup roomId

/-- Make a room that nobody else knows yet. -/
def construct (m : RoomManager) (roomId : Str) (capacity : ℕ) : Option (RoomRef × RoomManager) :=
  (Room.withStats roomId capacity).map fun room =>
    (m.heap.length, { m with heap := m.heap ++ [room] })

/-- Tell the recorder of a room coming into existence. -/
def roomOpened (m : RoomManager) : RoomManager :=
  { m with stats := m.stats.map StatsRecorder.roomOpened }

/-- Tell the recorder of a room removed. -/
def roomClosed (m : RoomManager) : RoomManager :=
  { m with stats := m.stats.map StatsRecorder.roomClosed }

/-- The map's `entry(id).or_insert_with(candidate)`. -/
def insertOrGet (m : RoomManager) (roomId : Str) (candidate : RoomRef) : RoomRef × RoomManager :=
  match m.rooms.lookup roomId with
  | some ref => (ref, m)
  | none => (candidate, { m with rooms := m.rooms.insert roomId candidate })

/-- The map's `remove(id)`. -/
def removeEntry (m : RoomManager) (roomId : Str) : Option RoomRef × RoomManager :=
  (m.rooms.lookup roomId, { m with rooms := m.rooms.erase roomId })

/-! ### Methods -/

/-- Get an existing room or create one with a custom capacity. -/
def getOrCreateWithCapacity (m : RoomManager) (roomId : Str) (capacity : ℕ) :
    Option (RoomRef × RoomManager) :=
  match m.get roomId with
  | some ref => some (ref, m)
  | none => (m.construct roomId capacity).map fun made =>
      made.2.roomOpened.insertOrGet roomId made.1

/-- Get an existing room or create one with the default capacity. -/
def getOrCreate (m : RoomManager) (roomId : Str) : Option (RoomRef × RoomManager) :=
  m.getOrCreateWithCapacity roomId m.defaultCapacity

/-- Remove a room by id, returning it if present. -/
def remove (m : RoomManager) (roomId : Str) : Option RoomRef × RoomManager :=
  match m.removeEntry roomId with
  | (some ref, m') => (some ref, m'.roomClosed)
  | (none, m') => (none, m')

/-- Number of rooms. -/
def roomCount (m : RoomManager) : ℕ := Map.size m.rooms

/-- Total participants across all rooms. -/
def totalParticipants (m : RoomManager) : ℕ :=
  ((Map.values m.rooms).map fun ref => (m.room ref).elim 0 Room.participantCount).sum

/-- List the rooms that satisfy `p`, remove the listed ids, and report the number listed. -/
def sweep (m : RoomManager) (p : Room → Bool) : ℕ × RoomManager :=
  let toRemove := Map.keysWhere m.rooms fun ref => (m.room ref).any p
  let removed := toRemove.foldl (fun m roomId => (m.removeEntry roomId).2) m
  (toRemove.length, roomClosed^[toRemove.length] removed)

/-- Remove all empty rooms. Returns the number removed. -/
def cleanup (m : RoomManager) : ℕ × RoomManager := m.sweep Room.isEmpty

/-- Remove all rooms with zero participants. Returns the number removed. -/
def cleanupEmpty (m : RoomManager) : ℕ × RoomManager :=
  m.sweep fun room => room.participantCount = 0

/-- The recorder's room gauge, where there is a recorder. -/
def roomsGauge (m : RoomManager) : Option ℕ := m.stats.map fun stats => stats.snapshot.rooms

/-! ### Methods of the room behind a handle -/

/-- Change the room behind a handle. -/
def modifyRoom (m : RoomManager) (ref : RoomRef) (f : Room → Room) : RoomManager :=
  { m with heap := m.heap.modify ref f }

/-- Broadcast on a handle. -/
def broadcast (m : RoomManager) (ref : RoomRef) (frame : Frame) :
    Option (Outcome WsError ℕ × RoomManager) :=
  (m.room ref).map fun room =>
    let sent := room.broadcast m.stats frame
    (sent.1, { m.modifyRoom ref fun _ => sent.2.1 with stats := sent.2.2 })

end Methods

/-! ### What the methods change -/

/-- An id that is mapped by now keeps its room. -/
theorem insertOrGet_of_get {m : RoomManager} {roomId : Str} {ref : RoomRef}
    (h : m.get roomId = some ref) (candidate : RoomRef) :
    m.insertOrGet roomId candidate = (ref, m) := by
  have hlookup : m.rooms.lookup roomId = some ref := h
  simp only [insertOrGet, hlookup]

/-- An id that is not mapped gets the candidate. -/
theorem insertOrGet_of_get_none {m : RoomManager} {roomId : Str} (h : m.get roomId = none)
    (candidate : RoomRef) :
    m.insertOrGet roomId candidate =
      (candidate, { m with rooms := m.rooms.insert roomId candidate }) := by
  have hlookup : m.rooms.lookup roomId = none := h
  simp only [insertOrGet, hlookup]

/-- A mapped id is taken from the map. -/
theorem removeEntry_of_get {m : RoomManager} {roomId : Str} {ref : RoomRef}
    (h : m.get roomId = some ref) :
    m.removeEntry roomId = (some ref, { m with rooms := m.rooms.erase roomId }) := by
  have hlookup : m.rooms.lookup roomId = some ref := h
  rw [removeEntry, hlookup]

/-- An id that is not mapped cannot be taken. -/
theorem removeEntry_of_get_none {m : RoomManager} {roomId : Str} (h : m.get roomId = none) :
    m.removeEntry roomId = (none, m) := by
  have hlookup : m.rooms.lookup roomId = none := h
  rw [removeEntry, hlookup, Map.erase_of_notMem (AList.lookup_eq_none.1 hlookup)]

/-- The manager after it has made and mapped a new room. -/
def withRoom (m : RoomManager) (roomId : Str) (capacity : ℕ) : RoomManager :=
  { m with
    rooms := m.rooms.insert roomId m.heap.length
    stats := m.stats.map StatsRecorder.roomOpened
    heap := m.heap ++ [⟨roomId, ⟨capacity, 0, ∅, []⟩, ∅⟩] }

/-- Removing a mapped id takes it from the map and closes a room. -/
theorem remove_of_get {m : RoomManager} {roomId : Str} {ref : RoomRef}
    (h : m.get roomId = some ref) :
    m.remove roomId = (some ref, { m with
      rooms := m.rooms.erase roomId
      stats := m.stats.map StatsRecorder.roomClosed }) := by
  simp only [remove, removeEntry_of_get h, roomClosed]

/-- Removing an id that is not mapped changes nothing. -/
theorem remove_of_get_none {m : RoomManager} {roomId : Str} (h : m.get roomId = none) :
    m.remove roomId = (none, m) := by
  simp only [remove, removeEntry_of_get_none h]

/-- The ids a sweep lists. -/
def listed (m : RoomManager) (p : Room → Bool) : List Str :=
  Map.keysWhere m.rooms fun ref => (m.room ref).any p

/-- Removing ids one after another removes them from the map only. -/
theorem foldl_removeEntry (m : RoomManager) (ids : List Str) :
    ids.foldl (fun m roomId => (m.removeEntry roomId).2) m =
      { m with rooms := Map.eraseAll m.rooms ids } := by
  induction ids generalizing m with
  | nil => rfl
  | cons head tail ih =>
    rw [List.foldl_cons, ih]
    rfl

/-- Closing rooms changes the recorder only. -/
theorem iterate_roomClosed (m : RoomManager) (n : ℕ) :
    roomClosed^[n] m = { m with stats := m.stats.map StatsRecorder.roomClosed^[n] } := by
  induction n generalizing m with
  | zero => cases hstats : m.stats <;> simp [← hstats]
  | succ n ih =>
    rw [Function.iterate_succ_apply, ih]
    cases hstats : m.stats <;> simp [roomClosed, hstats]

/-- A sweep removes the listed ids from the map and closes as many rooms. -/
theorem sweep_eq (m : RoomManager) (p : Room → Bool) :
    m.sweep p = ((m.listed p).length, { m with
      rooms := Map.eraseAll m.rooms (m.listed p)
      stats := m.stats.map StatsRecorder.roomClosed^[(m.listed p).length] }) := by
  rw [sweep, foldl_removeEntry, iterate_roomClosed]
  rfl

/-- The room at a position of the heap, after one was changed. -/
theorem room_modifyRoom (m : RoomManager) (ref : RoomRef) (f : Room → Room) (ref' : RoomRef) :
    (m.modifyRoom ref f).room ref' = if ref' = ref then (m.room ref').map f else m.room ref' := by
  simp only [room, modifyRoom, List.getElem?_modify]
  by_cases h : ref' = ref
  · simp [h]
  · simp [h, Ne.symm h]

/-- Only what a change does to the room behind the handle matters. -/
theorem modifyRoom_congr {m : RoomManager} {ref : RoomRef} {room : Room}
    (hroom : m.room ref = some room) {f g : Room → Room} (h : f room = g room) :
    m.modifyRoom ref f = m.modifyRoom ref g := by
  refine congrArg (RoomManager.mk _ _ _) (List.ext_getElem? fun ref' => ?_)
  have hf := room_modifyRoom m ref f ref'
  have hg := room_modifyRoom m ref g ref'
  rw [RoomManager.room] at hf hg
  by_cases heq : ref' = ref
  · rw [if_pos heq, heq, hroom, Option.map_some] at hf hg
    rw [heq]
    rw [h] at hf
    exact hf.trans hg.symm
  · rw [if_neg heq] at hf hg
    exact hf.trans hg.symm

/-- A position of the heap, after a room was made. -/
theorem getElem?_heap_append (heap : List Room) (made : Room) (ref : RoomRef) :
    (heap ++ [made])[ref]? = if ref = heap.length then some made else heap[ref]? := by
  rw [List.getElem?_append]
  by_cases heq : ref = heap.length
  · simp [heq]
  · by_cases hlt : ref < heap.length
    · rw [if_pos hlt, if_neg heq]
    · have hle : heap.length ≤ ref := Nat.le_of_not_lt hlt
      have hpos : ref - heap.length ≠ 0 :=
        Nat.sub_ne_zero_of_lt (Nat.lt_of_le_of_ne hle (Ne.symm heq))
      simp [heq, hlt, hpos]

/-- A position of the heap, after a room was made and mapped. -/
theorem room_withRoom (m : RoomManager) (roomId : Str) (capacity : ℕ) (ref : RoomRef) :
    (m.withRoom roomId capacity).room ref =
      if ref = m.heap.length then some ⟨roomId, ⟨capacity, 0, ∅, []⟩, ∅⟩ else m.room ref :=
  getElem?_heap_append m.heap _ ref

/-- A handle never points past the heap. -/
theorem ne_length_of_room {m : RoomManager} {ref : RoomRef} {room : Room} (h : m.room ref = some room) :
    ref ≠ m.heap.length := by
  intro heq
  rw [heq, RoomManager.room, List.getElem?_eq_none (Nat.le_refl _)] at h
  cases h

/-- Mapped ids stay mapped to their rooms, and rooms stay as they are. -/
structure Keeps (m m' : RoomManager) : Prop where
  get : ∀ roomId ref, m.get roomId = some ref → m'.get roomId = some ref
  room : ∀ ref room, m.room ref = some room → m'.room ref = some room

/-- Nothing changes for rooms when the map and the heap stay. -/
theorem Keeps.of_eq {m m' : RoomManager} (hrooms : m'.rooms = m.rooms) (hheap : m'.heap = m.heap) :
    Keeps m m' := by
  refine ⟨fun roomId ref hget => ?_, fun ref room hroom => ?_⟩
  · rw [RoomManager.get, hrooms]
    exact hget
  · rw [RoomManager.room, hheap]
    exact hroom

variable [ChannelApi Frame]

/-- A mapped id is answered with its room. -/
theorem getOrCreateWithCapacity_of_get {m : RoomManager} {roomId : Str} {ref : RoomRef}
    (h : m.get roomId = some ref) (capacity : ℕ) :
    m.getOrCreateWithCapacity roomId capacity = some (ref, m) := by
  simp only [getOrCreateWithCapacity, h]

/-- An id that is not mapped gets a new room. -/
theorem getOrCreateWithCapacity_of_accepted {m : RoomManager} {roomId : Str} {capacity : ℕ}
    (h : m.get roomId = none) (hcapacity : AcceptedCapacity Frame capacity) :
    m.getOrCreateWithCapacity roomId capacity =
      some (m.heap.length, m.withRoom roomId capacity) := by
  simp only [getOrCreateWithCapacity, h, construct, Room.withStats_of_accepted roomId hcapacity,
    Option.map_some]
  refine congrArg some (insertOrGet_of_get_none ?_ m.heap.length)
  exact h

/-- A capacity that channels do not accept panics when a room has to be made. -/
theorem getOrCreateWithCapacity_of_not_accepted {m : RoomManager} {roomId : Str} {capacity : ℕ}
    (h : m.get roomId = none) (hcapacity : ¬ AcceptedCapacity Frame capacity) :
    m.getOrCreateWithCapacity roomId capacity = none := by
  simp only [getOrCreateWithCapacity, h, construct, Room.withStats_of_not_accepted roomId hcapacity,
    Option.map_none]

/-- A candidate is a new room at the end of the heap. -/
theorem construct_eq_some {m m' : RoomManager} {roomId : Str} {capacity : ℕ} {candidate : RoomRef}
    (h : m.construct roomId capacity = some (candidate, m')) :
    candidate = m.heap.length ∧
      m' = { m with heap := m.heap ++ [⟨roomId, ⟨capacity, 0, ∅, []⟩, ∅⟩] } := by
  by_cases hcapacity : AcceptedCapacity Frame capacity
  · rw [construct, Room.withStats_of_accepted roomId hcapacity, Option.map_some,
      Option.some.injEq, Prod.mk.injEq] at h
    exact ⟨h.1.symm, h.2.symm⟩
  · rw [construct, Room.withStats_of_not_accepted roomId hcapacity] at h
    cases h

end RoomManager

/-- The calls on a manager and on the handles it has returned. -/
inductive RoomOp where
  | getOrCreate (roomId : Str)
  | getOrCreateWithCapacity (roomId : Str) (capacity : ℕ)
  | get (roomId : Str)
  | remove (roomId : Str)
  | cleanup
  | cleanupEmpty
  | roomCount
  | totalParticipants
  | join (ref : RoomRef) (participantId : UInt32) (name : Str)
  | leave (ref : RoomRef) (participantId : UInt32)
  | subscribe (ref : RoomRef)
  | dropReceiver (ref : RoomRef) (rx : ReceiverId)
  | broadcast (ref : RoomRef) (frame : Frame)
  deriving DecidableEq

/-- The handle that a call uses, unless it is a call on the manager. -/
def RoomOp.handle : RoomOp → Option RoomRef
  | .join ref _ _ => some ref
  | .leave ref _ => some ref
  | .subscribe ref => some ref
  | .dropReceiver ref _ => some ref
  | .broadcast ref _ => some ref
  | _ => none

/-- The handle through which a call admits a participant or a receiver. -/
def RoomOp.admits : RoomOp → Option RoomRef
  | .join ref _ _ => some ref
  | .subscribe ref => some ref
  | _ => none

/-- The calls that send a frame. -/
def RoomOp.sends : RoomOp → Bool
  | .broadcast _ _ => true
  | _ => false

/-- A call admits through the handle that it uses. -/
theorem RoomOp.handle_of_admits {op : RoomOp} {admitted ref : RoomRef}
    (hadmits : op.admits = some admitted) (hop : op.handle = some ref) : admitted = ref := by
  cases op <;> cases hadmits <;> cases hop <;> rfl

variable [ChannelApi Frame]

/-- What a call on a handle does to the room behind it. -/
def RoomOp.onRoom : RoomOp → Room → Room
  | .join _ participantId name, room => room.join participantId name
  | .leave _ participantId, room => (room.leave participantId).2
  | .subscribe _, room => room.subscribe.2
  | .dropReceiver _ rx, room => room.dropReceiver rx
  | .broadcast _ frame, room => (room.broadcast none frame).2.1
  | _, room => room

/-- What a call returns. -/
inductive RoomResult where
  | panicked
  | room (ref : RoomRef)
  | found (ref : Option RoomRef)
  | count (n : ℕ)
  | joined
  | left (present : Bool)
  | subscribed (rx : ReceiverId)
  | dropped
  | broadcasted (result : Outcome WsError ℕ)
  deriving DecidableEq

namespace RoomManager

/-- The result and effect of asking for a room that may have to be made. -/
def answer (m : RoomManager) (made : Option (RoomRef × RoomManager)) : RoomResult × RoomManager :=
  made.elim (.panicked, m) fun made => (.room made.1, made.2)

/-- Run one call. A handle that was never made, and a receiver that is not live, cannot be
used. -/
def call (m : RoomManager) : RoomOp → Option (RoomResult × RoomManager)
  | .getOrCreate roomId => some (m.answer (m.getOrCreate roomId))
  | .getOrCreateWithCapacity roomId capacity =>
    some (m.answer (m.getOrCreateWithCapacity roomId capacity))
  | .get roomId => some (.found (m.get roomId), m)
  | .remove roomId => some (.found (m.remove roomId).1, (m.remove roomId).2)
  | .cleanup => some (.count m.cleanup.1, m.cleanup.2)
  | .cleanupEmpty => some (.count m.cleanupEmpty.1, m.cleanupEmpty.2)
  | .roomCount => some (.count m.roomCount, m)
  | .totalParticipants => some (.count m.totalParticipants, m)
  | .join ref participantId name =>
    (m.room ref).map fun _ => (.joined, m.modifyRoom ref fun room => room.join participantId name)
  | .leave ref participantId =>
    (m.room ref).map fun room =>
      (.left (room.leave participantId).1, m.modifyRoom ref fun room => (room.leave participantId).2)
  | .subscribe ref =>
    (m.room ref).map fun room =>
      (.subscribed room.subscribe.1, m.modifyRoom ref fun room => room.subscribe.2)
  | .dropReceiver ref rx =>
    (m.room ref).bind fun room =>
      if rx ∈ room.tx.receivers then
        some (.dropped, m.modifyRoom ref fun room => room.dropReceiver rx)
      else none
  | .broadcast ref frame =>
    (m.broadcast ref frame).map fun sent => (.broadcasted sent.1, sent.2)

/-- Sending on a handle is a call. -/
theorem call_of_broadcast {m m' : RoomManager} {ref : RoomRef} {frame : Frame}
    {sent : Outcome WsError ℕ} (h : m.broadcast ref frame = some (sent, m')) :
    m.call (.broadcast ref frame) = some (.broadcasted sent, m') := by
  rw [call, h, Option.map_some]

/-- A call on a handle changes the room behind it and the traffic counters, nothing else. -/
theorem call_of_handle {m m' : RoomManager} {op : RoomOp} {result : RoomResult} {ref : RoomRef}
    (hop : op.handle = some ref) (hcall : m.call op = some (result, m')) :
    ∃ room stats, m.room ref = some room ∧ m' = { m.modifyRoom ref op.onRoom with stats } ∧
      stats.map (fun recorder => recorder.snapshot.rooms) = m.roomsGauge := by
  cases op with
  | join | leave | subscribe =>
    cases hop
    obtain ⟨room, hroom, heq⟩ := Option.map_eq_some_iff.1 hcall
    obtain ⟨_, rfl⟩ := Prod.mk.inj heq
    exact ⟨room, m.stats, hroom, rfl, rfl⟩
  | dropReceiver ref' rx =>
    cases hop
    obtain ⟨room, hroom, heq⟩ := Option.bind_eq_some_iff.1 hcall
    obtain ⟨_, heq⟩ := Option.ite_none_right_eq_some.1 heq
    obtain ⟨_, rfl⟩ := Prod.mk.inj (Option.some.inj heq)
    exact ⟨room, m.stats, hroom, rfl, rfl⟩
  | broadcast ref' frame =>
    cases hop
    obtain ⟨sent, hsent, heq⟩ := Option.map_eq_some_iff.1 hcall
    obtain ⟨_, rfl⟩ := Prod.mk.inj heq
    obtain ⟨room, hroom, rfl⟩ := Option.map_eq_some_iff.1 hsent
    refine ⟨room, (room.broadcast m.stats frame).2.2, hroom, ?_,
      room.broadcast_rooms m.stats frame⟩
    have hsame : m.modifyRoom ref (RoomOp.broadcast ref frame).onRoom =
        m.modifyRoom ref fun _ => (room.broadcast m.stats frame).2.1 := by
      apply modifyRoom_congr hroom
      exact (room.broadcast_room m.stats frame).symm
    rw [hsame]
  | getOrCreate roomId => cases hop
  | getOrCreateWithCapacity roomId capacity => cases hop
  | get roomId => cases hop
  | remove roomId => cases hop
  | cleanup => cases hop
  | cleanupEmpty => cases hop
  | roomCount => cases hop
  | totalParticipants => cases hop

/-- A call on a handle keeps the id and the capacity of the room. -/
theorem onRoom_shell (op : RoomOp) (room : Room) :
    (op.onRoom room).id = room.id ∧ (op.onRoom room).tx.capacity = room.tx.capacity := by
  cases op with
  | broadcast ref frame =>
    obtain ⟨sent, hsent⟩ := room.broadcast_room_eq none frame
    rw [RoomOp.onRoom, hsent]
    exact ⟨rfl, rfl⟩
  | _ => exact ⟨rfl, rfl⟩

/-- A call that admits nobody leaves an empty room empty. -/
theorem onRoom_isEmpty {op : RoomOp} (hop : op.admits = none) {room : Room}
    (h : room.isEmpty = true) : (op.onRoom room).isEmpty = true := by
  rw [Room.isEmpty, Bool.and_eq_true, decide_eq_true_iff, decide_eq_true_iff,
    Room.receiverCount_eq] at h ⊢
  obtain ⟨hroster, hreceivers⟩ := h
  cases op with
  | leave ref participantId =>
    refine ⟨?_, hreceivers⟩
    exact Nat.eq_zero_of_le_zero (hroster ▸ Map.size_erase_le room.participants participantId)
  | dropReceiver ref rx =>
    refine ⟨hroster, ?_⟩
    exact Nat.eq_zero_of_le_zero (hreceivers ▸ Map.size_erase_le room.tx.receivers rx)
  | broadcast ref frame =>
    obtain ⟨sent, hsent⟩ := room.broadcast_room_eq none frame
    rw [RoomOp.onRoom, hsent]
    exact ⟨hroster, hreceivers⟩
  | join ref participantId name => cases hop
  | subscribe ref => cases hop
  | _ => exact ⟨hroster, hreceivers⟩

/-- Calls made one after another, each shown with its result. -/
def machine : Machine RoomManager RoomOp (RoomOp × RoomResult) where
  step m op := (m.call op).map fun called => (called.2, [(op, called.1)])

end RoomManager

end WsKit
