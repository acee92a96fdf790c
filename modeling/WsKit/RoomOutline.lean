import WsKit.RoomManager

/-!
# What callers can see of a manager

A caller learns of a room its id, its roster and its live receivers, never the frames that were sent
to it. So two managers that differ in these frames, and in the traffic counted for them, answer
every call alike and stay alike.
-/

namespace WsKit

open Base

/-- A room without the frames sent to it and without the positions at which its receivers wait. -/
structure Outline where
  id : Str
  capacity : ℕ
  created : ℕ
  receivers : List ReceiverId
  participants : Map UInt32 Str

namespace Outline

/-- Number of tracked participants. -/
def participantCount (outline : Outline) : ℕ := Map.size outline.participants

/-- True if there are no participants and no receivers. -/
def isEmpty (outline : Outline) : Bool :=
  outline.participantCount = 0 && outline.receivers.length = 0

/-- What a call on a handle does to the outline of the room. -/
def use : RoomOp → Outline → Outline
  | .join _ participantId name, outline =>
    { outline with participants := outline.participants.insert participantId name }
  | .leave _ participantId, outline =>
    { outline with participants := outline.participants.erase participantId }
  | .subscribe _, outline =>
    { outline with
      created := outline.created + 1
      receivers := outline.created :: outline.receivers.erase outline.created }
  | .dropReceiver _ rx, outline => { outline with receivers := outline.receivers.erase rx }
  | _, outline => outline

end Outline

namespace Room

/-- The outline of a room. -/
def outline (room : Room) : Outline :=
  ⟨room.id, room.tx.capacity, room.tx.created, room.tx.receivers.keys, room.participants⟩

/-- The roster is part of the outline. -/
theorem participantCount_outline (room : Room) :
    room.outline.participantCount = room.participantCount := rfl

variable [ChannelApi Frame]

/-- The number of receivers is that of the outline. -/
theorem receiverCount_eq_length (room : Room) :
    room.receiverCount = room.outline.receivers.length :=
  (receiverCount_eq room).trans (Map.size_eq_length_keys room.tx.receivers)

/-- Whether a room is empty can be told from its outline. -/
theorem isEmpty_outline (room : Room) : room.outline.isEmpty = room.isEmpty := by
  rw [isEmpty, receiverCount_eq_length, Outline.isEmpty, participantCount_outline]

/-- What a call on a handle does to the outline depends on the outline alone. -/
theorem outline_onRoom (op : RoomOp) (room : Room) :
    (op.onRoom room).outline = room.outline.use op := by
  cases op with
  | subscribe ref =>
    simp only [RoomOp.onRoom, subscribe, Channel.subscribe, outline, Outline.use, AList.keys_insert]
  | dropReceiver ref rx =>
    simp only [RoomOp.onRoom, dropReceiver, Channel.dropReceiver, outline, Outline.use,
      AList.keys_erase]
  | broadcast ref frame =>
    obtain ⟨sent, hsent⟩ := room.broadcast_room_eq none frame
    rw [RoomOp.onRoom, hsent]
    rfl
  | _ => rfl

end Room

namespace RoomManager

/-- Two managers that map the same ids, whose rooms have the same outlines, and whose recorders
show as many rooms. -/
structure Alike (m n : RoomManager) : Prop where
  rooms : m.rooms = n.rooms
  defaultCapacity : m.defaultCapacity = n.defaultCapacity
  made : m.heap.length = n.heap.length
  outlines : ∀ ref, (m.room ref).map Room.outline = (n.room ref).map Room.outline
  gauge : m.roomsGauge = n.roomsGauge

variable {m n m' : RoomManager} {op : RoomOp} {result : RoomResult}

/-- Every manager is like itself. -/
theorem Alike.refl (m : RoomManager) : Alike m m := ⟨rfl, rfl, rfl, fun _ => rfl, rfl⟩

/-- Likeness goes both ways. -/
theorem Alike.symm (h : Alike m n) : Alike n m :=
  ⟨h.rooms.symm, h.defaultCapacity.symm, h.made.symm, fun ref => (h.outlines ref).symm,
    h.gauge.symm⟩

/-- Likeness is passed on. -/
theorem Alike.trans {k : RoomManager} (h : Alike m n) (h' : Alike n k) : Alike m k :=
  ⟨h.rooms.trans h'.rooms, h.defaultCapacity.trans h'.defaultCapacity, h.made.trans h'.made,
    fun ref => (h.outlines ref).trans (h'.outlines ref), h.gauge.trans h'.gauge⟩

/-- A handle of one names a room of the other with the same outline. -/
theorem Alike.room (h : Alike m n) {ref : RoomRef} {room : Room} (hroom : m.room ref = some room) :
    ∃ room', n.room ref = some room' ∧ room'.outline = room.outline := by
  have houtline := h.outlines ref
  rw [hroom, Option.map_some] at houtline
  exact Option.map_eq_some_iff.1 houtline.symm

/-- The same ids are mapped to the same rooms. -/
theorem Alike.get (h : Alike m n) (roomId : Str) : m.get roomId = n.get roomId := by
  rw [RoomManager.get, h.rooms, RoomManager.get]

/-- A sum over the rooms that depends on the outlines alone. -/
theorem Alike.totalParticipants (h : Alike m n) : m.totalParticipants = n.totalParticipants := by
  have hcount : ∀ k : RoomManager, ∀ ref, (k.room ref).elim 0 Room.participantCount =
      ((k.room ref).map Room.outline).elim 0 Outline.participantCount := by
    intro k ref
    cases k.room ref <;> rfl
  rw [RoomManager.totalParticipants, RoomManager.totalParticipants, h.rooms]
  refine congrArg List.sum (List.map_congr_left fun ref _ => ?_)
  rw [hcount m, h.outlines, hcount n]

/-- A test that depends on the outlines alone lists the same ids. -/
theorem Alike.listed (h : Alike m n) {p : Room → Bool} {q : Outline → Bool}
    (hp : ∀ room, q room.outline = p room) : m.listed p = n.listed p := by
  have hany : ∀ k : RoomManager, ∀ ref, (k.room ref).any p =
      ((k.room ref).map Room.outline).any q := by
    intro k ref
    cases hroom : k.room ref with
    | none => rfl
    | some room => exact (hp room).symm
  rw [RoomManager.listed, RoomManager.listed, h.rooms]
  refine congrArg (Map.keysWhere n.rooms) (funext fun ref => ?_)
  rw [hany m, h.outlines, hany n]

/-- Closing rooms lowers the gauge by their number. -/
theorem gauge_iterate_roomClosed (stats : Option StatsRecorder) (k : ℕ) :
    (stats.map StatsRecorder.roomClosed^[k]).map (fun recorder => recorder.snapshot.rooms) =
      (stats.map fun recorder => recorder.snapshot.rooms).map (· - k) := by
  cases stats with
  | none => rfl
  | some recorder =>
    simp only [Option.map_some, StatsRecorder.snapshot_rooms_iterate_roomClosed]

/-- Sweeps with a test that depends on the outlines alone count the same and stay alike. -/
theorem Alike.sweep (h : Alike m n) {p : Room → Bool} {q : Outline → Bool}
    (hp : ∀ room, q room.outline = p room) :
    (m.sweep p).1 = (n.sweep p).1 ∧ Alike (m.sweep p).2 (n.sweep p).2 := by
  have hlisted := h.listed hp
  rw [sweep_eq, sweep_eq, hlisted]
  refine ⟨rfl, ?_, h.defaultCapacity, h.made, h.outlines, ?_⟩
  · rw [h.rooms]
  · have hgauge := h.gauge
    simp only [roomsGauge] at hgauge ⊢
    rw [gauge_iterate_roomClosed, gauge_iterate_roomClosed, hgauge]

/-- Making and mapping a room in both keeps them alike. -/
theorem Alike.withRoom (h : Alike m n) (roomId : Str) (capacity : ℕ) :
    Alike (m.withRoom roomId capacity) (n.withRoom roomId capacity) := by
  refine ⟨?_, h.defaultCapacity, ?_, fun ref => ?_, ?_⟩
  · simp only [RoomManager.withRoom, h.rooms, h.made]
  · simp only [RoomManager.withRoom, List.length_append, h.made]
  · rw [room_withRoom, room_withRoom, h.made]
    split
    · rfl
    · exact h.outlines ref
  · have hopened : ∀ k : RoomManager,
        (k.withRoom roomId capacity).roomsGauge = k.roomsGauge.map (· + 1) := by
      intro k
      cases hstats : k.stats <;> simp [roomsGauge, RoomManager.withRoom, hstats]
    rw [hopened, hopened, h.gauge]

/-- Removing an id from both gives the same answer and keeps them alike. -/
theorem Alike.remove (h : Alike m n) (roomId : Str) :
    (m.remove roomId).1 = (n.remove roomId).1 ∧ Alike (m.remove roomId).2 (n.remove roomId).2 := by
  have hget := h.get roomId
  cases hfound : m.get roomId with
  | none =>
    rw [hfound] at hget
    rw [remove_of_get_none hfound, remove_of_get_none hget.symm]
    exact ⟨rfl, h⟩
  | some ref =>
    rw [hfound] at hget
    rw [remove_of_get hfound, remove_of_get hget.symm]
    refine ⟨rfl, congrArg (AList.erase roomId) h.rooms, h.defaultCapacity, h.made, h.outlines, ?_⟩
    have hgauge := h.gauge
    simp only [roomsGauge] at hgauge ⊢
    exact (gauge_iterate_roomClosed m.stats 1).trans
      ((congrArg _ hgauge).trans (gauge_iterate_roomClosed n.stats 1).symm)

variable [ChannelApi Frame]

/-- Asking both for a room gives the same answer and keeps them alike. -/
theorem Alike.answer (h : Alike m n) (roomId : Str) (capacity : ℕ) :
    (m.answer (m.getOrCreateWithCapacity roomId capacity)).1 =
        (n.answer (n.getOrCreateWithCapacity roomId capacity)).1 ∧
      Alike (m.answer (m.getOrCreateWithCapacity roomId capacity)).2
        (n.answer (n.getOrCreateWithCapacity roomId capacity)).2 := by
  have hget := h.get roomId
  cases hfound : m.get roomId with
  | some ref =>
    rw [hfound] at hget
    rw [getOrCreateWithCapacity_of_get hfound, getOrCreateWithCapacity_of_get hget.symm]
    exact ⟨rfl, h⟩
  | none =>
    rw [hfound] at hget
    by_cases hcapacity : AcceptedCapacity Frame capacity
    · rw [getOrCreateWithCapacity_of_accepted hfound hcapacity,
        getOrCreateWithCapacity_of_accepted hget.symm hcapacity, h.made]
      exact ⟨rfl, h.withRoom roomId capacity⟩
    · rw [getOrCreateWithCapacity_of_not_accepted hfound hcapacity,
        getOrCreateWithCapacity_of_not_accepted hget.symm hcapacity]
      exact ⟨rfl, h⟩

/-- A call on a handle that one answers, the other answers the same. -/
theorem Alike.answered (h : Alike m n) {ref : RoomRef} (hop : op.handle = some ref)
    (hcall : m.call op = some (result, m')) : ∃ n', n.call op = some (result, n') := by
  cases op with
  | join used participantId name =>
    obtain ⟨room, hroom, heq⟩ := Option.map_eq_some_iff.1 hcall
    obtain ⟨rfl, -⟩ := Prod.mk.inj heq
    obtain ⟨room', hroom', -⟩ := h.room hroom
    exact ⟨_, Option.map_eq_some_iff.2 ⟨room', hroom', rfl⟩⟩
  | leave used participantId =>
    obtain ⟨room, hroom, heq⟩ := Option.map_eq_some_iff.1 hcall
    obtain ⟨rfl, -⟩ := Prod.mk.inj heq
    obtain ⟨room', hroom', houtline⟩ := h.room hroom
    have hroster : room'.participants = room.participants := congrArg Outline.participants houtline
    have hpresent : (room'.leave participantId).1 = (room.leave participantId).1 := by
      rw [Room.leave, hroster, Room.leave]
    refine ⟨n.modifyRoom used fun room => (room.leave participantId).2, ?_⟩
    rw [RoomManager.call, hroom', Option.map_some, hpresent]
  | subscribe used =>
    obtain ⟨room, hroom, heq⟩ := Option.map_eq_some_iff.1 hcall
    obtain ⟨rfl, -⟩ := Prod.mk.inj heq
    obtain ⟨room', hroom', houtline⟩ := h.room hroom
    have hcreated : room'.subscribe.1 = room.subscribe.1 := congrArg Outline.created houtline
    refine ⟨n.modifyRoom used fun room => room.subscribe.2, ?_⟩
    rw [RoomManager.call, hroom', Option.map_some, hcreated]
  | dropReceiver used rx =>
    obtain ⟨room, hroom, heq⟩ := Option.bind_eq_some_iff.1 hcall
    obtain ⟨hrx, heq⟩ := Option.ite_none_right_eq_some.1 heq
    obtain ⟨rfl, -⟩ := Prod.mk.inj (Option.some.inj heq)
    obtain ⟨room', hroom', houtline⟩ := h.room hroom
    have hlive : room'.tx.receivers.keys = room.tx.receivers.keys :=
      congrArg Outline.receivers houtline
    have hrx' : rx ∈ room'.tx.receivers := by
      rw [AList.mem_keys, hlive]
      exact AList.mem_keys.1 hrx
    exact ⟨_, Option.bind_eq_some_iff.2 ⟨room', hroom', if_pos hrx'⟩⟩
  | broadcast used frame =>
    obtain ⟨⟨sent, _⟩, hsent, heq⟩ := Option.map_eq_some_iff.1 hcall
    obtain ⟨rfl, -⟩ := Prod.mk.inj heq
    obtain ⟨room, hroom, heq⟩ := Option.map_eq_some_iff.1 hsent
    obtain ⟨rfl, -⟩ := Prod.mk.inj heq
    obtain ⟨room', hroom', houtline⟩ := h.room hroom
    have hcount : room'.receiverCount = room.receiverCount := by
      rw [Room.receiverCount_eq_length, houtline, Room.receiverCount_eq_length]
    have hresult : (room'.broadcast n.stats frame).1 = (room.broadcast m.stats frame).1 := by
      by_cases hnobody : room.receiverCount = 0
      · rw [Room.broadcast_of_receiverCount_eq_zero hnobody,
          Room.broadcast_of_receiverCount_eq_zero (hcount.trans hnobody)]
      · rw [Room.broadcast_of_receiverCount_ne_zero hnobody,
          Room.broadcast_of_receiverCount_ne_zero (hcount ▸ hnobody), hcount]
    have hsent' : n.broadcast used frame = some ((room.broadcast m.stats frame).1,
        { n.modifyRoom used fun _ => (room'.broadcast n.stats frame).2.1 with
          stats := (room'.broadcast n.stats frame).2.2 }) := by
      rw [RoomManager.broadcast, hroom', Option.map_some, ← hresult]
    exact ⟨_, Option.map_eq_some_iff.2 ⟨_, hsent', rfl⟩⟩
  | getOrCreate roomId => cases hop
  | getOrCreateWithCapacity roomId capacity => cases hop
  | get roomId => cases hop
  | remove roomId => cases hop
  | cleanup => cases hop
  | cleanupEmpty => cases hop
  | roomCount => cases hop
  | totalParticipants => cases hop

/-- The outlines after a call on a handle. -/
theorem outline_of_handle {ref : RoomRef} (hop : op.handle = some ref)
    (hcall : m.call op = some (result, m')) (ref' : RoomRef) :
    (m'.room ref').map Room.outline = if ref' = ref then
      ((m.room ref').map Room.outline).map (Outline.use op) else (m.room ref').map Room.outline := by
  obtain ⟨room, stats, -, rfl, -⟩ := call_of_handle hop hcall
  have hmodified := m.room_modifyRoom ref op.onRoom ref'
  change ((m.modifyRoom ref op.onRoom).room ref').map Room.outline = _
  rw [hmodified]
  by_cases heq : ref' = ref
  · rw [if_pos heq, if_pos heq, heq, Option.map_map, Option.map_map]
    exact congrArg (fun f => (m.room ref).map f) (funext fun room => Room.outline_onRoom op room)
  · rw [if_neg heq, if_neg heq]

/-- A call on a handle keeps alike managers alike. -/
theorem Alike.use (h : Alike m n) {ref : RoomRef} (hop : op.handle = some ref)
    (hcall : m.call op = some (result, m')) {n' : RoomManager}
    (hcall' : n.call op = some (result, n')) : Alike m' n' := by
  have houtline := outline_of_handle hop hcall
  have houtline' := outline_of_handle hop hcall'
  obtain ⟨_, stats, -, rfl, hgauge⟩ := call_of_handle hop hcall
  obtain ⟨_, stats', -, rfl, hgauge'⟩ := call_of_handle hop hcall'
  refine ⟨h.rooms, h.defaultCapacity, ?_, fun ref' => ?_, ?_⟩
  · simp only [modifyRoom, List.length_modify, h.made]
  · rw [houtline, houtline', h.outlines]
  · exact hgauge.trans (h.gauge.trans hgauge'.symm)

/-- Alike managers answer every call alike, and stay alike. -/
theorem Alike.call (h : Alike m n) (hcall : m.call op = some (result, m')) :
    ∃ n', n.call op = some (result, n') ∧ Alike m' n' := by
  cases hop : op.handle with
  | some ref =>
    obtain ⟨n', hcall'⟩ := h.answered hop hcall
    exact ⟨n', hcall', h.use hop hcall hcall'⟩
  | none =>
    have hpair : ∀ {answered answered' : RoomResult × RoomManager},
        answered = (result, m') → answered.1 = answered'.1 ∧ Alike answered.2 answered'.2 →
        ∃ n', some answered' = some (result, n') ∧ Alike m' n' := by
      rintro answered answered' rfl ⟨hresult, halike⟩
      exact ⟨answered'.2, congrArg some (Prod.ext hresult.symm rfl), halike⟩
    cases op with
    | getOrCreate roomId =>
      have hsame := h.answer roomId m.defaultCapacity
      rw [h.defaultCapacity] at hsame
      refine hpair (Option.some.inj hcall) ?_
      rw [RoomManager.getOrCreate, h.defaultCapacity]
      exact hsame
    | getOrCreateWithCapacity roomId capacity =>
      exact hpair (Option.some.inj hcall) (h.answer roomId capacity)
    | get roomId => exact hpair (Option.some.inj hcall) ⟨congrArg RoomResult.found (h.get roomId), h⟩
    | remove roomId =>
      obtain ⟨hresult, halike⟩ := h.remove roomId
      exact hpair (Option.some.inj hcall) ⟨congrArg RoomResult.found hresult, halike⟩
    | cleanup =>
      obtain ⟨hresult, halike⟩ := h.sweep Room.isEmpty_outline
      exact hpair (Option.some.inj hcall) ⟨congrArg RoomResult.count hresult, halike⟩
    | cleanupEmpty =>
      obtain ⟨hresult, halike⟩ := h.sweep (p := fun room => room.participantCount = 0)
        (q := fun outline => outline.participantCount = 0) fun _ => rfl
      exact hpair (Option.some.inj hcall) ⟨congrArg RoomResult.count hresult, halike⟩
    | roomCount =>
      have hcount : m.roomCount = n.roomCount := by
        rw [RoomManager.roomCount, h.rooms, RoomManager.roomCount]
      exact hpair (Option.some.inj hcall) ⟨congrArg RoomResult.count hcount, h⟩
    | totalParticipants =>
      exact hpair (Option.some.inj hcall) ⟨congrArg RoomResult.count h.totalParticipants, h⟩
    | join ref participantId name => cases hop
    | leave ref participantId => cases hop
    | subscribe ref => cases hop
    | dropReceiver ref rx => cases hop
    | broadcast ref frame => cases hop

/-- Sending to a room is not seen by other callers. -/
theorem Alike.of_broadcast {ref : RoomRef} {frame : Frame} {sent : Outcome WsError ℕ}
    (h : m.broadcast ref frame = some (sent, m')) : Alike m' m := by
  have hcall := call_of_broadcast h
  have hop : (RoomOp.broadcast ref frame).handle = some ref := rfl
  have houtline := outline_of_handle hop hcall
  obtain ⟨_, stats, -, rfl, hgauge⟩ := call_of_handle hop hcall
  refine ⟨rfl, rfl, ?_, fun ref' => ?_, hgauge⟩
  · simp only [modifyRoom, List.length_modify]
  · have hid : Outline.use (.broadcast ref frame) = id := rfl
    rw [houtline, hid, Option.map_id_fun, id_eq, ite_self]

end RoomManager

end WsKit
