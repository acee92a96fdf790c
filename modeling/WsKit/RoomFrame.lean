import WsKit.RoomManager

/-!
# What a call does to each room

A call changes the room behind its handle, if it uses one, and no other; it may put one new
room at the end of the heap. What stays the same under every call is read off from this.
-/

namespace WsKit.RoomManager

open Base

variable [ChannelApi Frame]

variable {m m' : RoomManager} {op : RoomOp} {result : RoomResult}

/-- A call for a room finds it, makes it, or panics. -/
theorem answer_getOrCreateWithCapacity {roomId : Str} {capacity : ℕ}
    (h : m.answer (m.getOrCreateWithCapacity roomId capacity) = (result, m')) :
    (∃ ref, m.get roomId = some ref ∧ result = .room ref ∧ m' = m) ∨
      (m.get roomId = none ∧ result = .room m.heap.length ∧ m' = m.withRoom roomId capacity) ∨
      (m.get roomId = none ∧ result = .panicked ∧ m' = m) := by
  cases hget : m.get roomId with
  | some ref =>
    rw [getOrCreateWithCapacity_of_get hget] at h
    obtain ⟨rfl, rfl⟩ := Prod.mk.inj h
    exact .inl ⟨ref, rfl, rfl, rfl⟩
  | none =>
    by_cases hcapacity : AcceptedCapacity Frame capacity
    · rw [getOrCreateWithCapacity_of_accepted hget hcapacity] at h
      obtain ⟨rfl, rfl⟩ := Prod.mk.inj h
      exact .inr (.inl ⟨rfl, rfl, rfl⟩)
    · rw [getOrCreateWithCapacity_of_not_accepted hget hcapacity] at h
      obtain ⟨rfl, rfl⟩ := Prod.mk.inj h
      exact .inr (.inr ⟨rfl, rfl, rfl⟩)

/-- A call for a room with the default capacity finds it, makes it, or panics. -/
theorem call_getOrCreate {roomId : Str} (hcall : m.call (.getOrCreate roomId) = some (result, m')) :
    (∃ ref, m.get roomId = some ref ∧ result = .room ref ∧ m' = m) ∨
      (m.get roomId = none ∧ result = .room m.heap.length ∧
        m' = m.withRoom roomId m.defaultCapacity) ∨
      (m.get roomId = none ∧ result = .panicked ∧ m' = m) :=
  answer_getOrCreateWithCapacity (Option.some.inj hcall)

/-- Asking for a room maps the id to the room that is handed out. -/
theorem get_of_getOrCreate {roomId : Str} {ref : RoomRef}
    (hcall : m.call (.getOrCreate roomId) = some (.room ref, m')) : m'.get roomId = some ref := by
  obtain ⟨found, hget, hresult, rfl⟩ | ⟨_, hresult, rfl⟩ | ⟨_, hresult, _⟩ := call_getOrCreate hcall
  · cases hresult
    exact hget
  · cases hresult
    exact AList.lookup_insert _
  · cases hresult

/-! ### Rooms -/

/-- What may become of a room in a call: the call's own effect when it uses the room's handle,
and a new room where there was none. -/
def RoomStep (op : RoomOp) (ref : RoomRef) (before after : Option Room) : Prop :=
  after = before.map (fun room => if op.handle = some ref then op.onRoom room else room) ∨
    before = none ∧ ∃ roomId capacity, after = some ⟨roomId, ⟨capacity, 0, ∅, []⟩, ∅⟩

/-- A call without a handle leaves rooms alone when it leaves the heap alone. -/
theorem roomStep_of_heap (hop : op.handle = none) (hheap : m'.heap = m.heap) (ref : RoomRef) :
    RoomStep op ref (m.room ref) (m'.room ref) := by
  refine .inl ?_
  rw [RoomManager.room, hheap, hop]
  exact Option.map_id'.symm

/-- Asking for a room makes one at most. -/
theorem roomStep_of_answer {roomId : Str} {capacity : ℕ} (hop : op.handle = none)
    (h : m.answer (m.getOrCreateWithCapacity roomId capacity) = (result, m')) (ref : RoomRef) :
    RoomStep op ref (m.room ref) (m'.room ref) := by
  obtain ⟨_, _, _, rfl⟩ | ⟨_, _, rfl⟩ | ⟨_, _, rfl⟩ := answer_getOrCreateWithCapacity h
  · exact roomStep_of_heap hop rfl ref
  · rw [room_withRoom]
    by_cases heq : ref = m.heap.length
    · rw [if_pos heq, heq]
      exact .inr ⟨List.getElem?_eq_none (Nat.le_refl _), roomId, capacity, rfl⟩
    · rw [if_neg heq]
      exact roomStep_of_heap hop rfl ref
  · exact roomStep_of_heap hop rfl ref

/-- A call on a handle changes the room behind it. -/
theorem roomStep_of_handle {used : RoomRef} (hop : op.handle = some used)
    (hcall : m.call op = some (result, m')) (ref : RoomRef) :
    RoomStep op ref (m.room ref) (m'.room ref) := by
  obtain ⟨_, stats, _, rfl, _⟩ := call_of_handle hop hcall
  refine .inl ?_
  change (m.modifyRoom used op.onRoom).room ref = _
  rw [room_modifyRoom, hop]
  by_cases heq : ref = used
  · simp only [if_pos heq, if_pos (congrArg some heq.symm)]
  · have hne : some used ≠ some ref := fun h => heq (Option.some.inj h).symm
    simp only [if_neg heq, if_neg hne, Option.map_id']

/-- What every call does to every room. -/
theorem roomStep_of_call (hcall : m.call op = some (result, m')) (ref : RoomRef) :
    RoomStep op ref (m.room ref) (m'.room ref) := by
  cases hop : op.handle with
  | some used => exact roomStep_of_handle hop hcall ref
  | none =>
    cases op with
    | getOrCreate roomId => exact roomStep_of_answer hop (Option.some.inj hcall) ref
    | getOrCreateWithCapacity roomId capacity =>
      exact roomStep_of_answer hop (Option.some.inj hcall) ref
    | get roomId =>
      obtain ⟨_, rfl⟩ := Prod.mk.inj (Option.some.inj hcall)
      exact roomStep_of_heap hop rfl ref
    | remove roomId =>
      obtain ⟨_, rfl⟩ := Prod.mk.inj (Option.some.inj hcall)
      refine roomStep_of_heap hop ?_ ref
      cases hget : m.get roomId with
      | some removed => rw [remove_of_get hget]
      | none => rw [remove_of_get_none hget]
    | cleanup =>
      obtain ⟨_, rfl⟩ := Prod.mk.inj (Option.some.inj hcall)
      exact roomStep_of_heap hop (by rw [cleanup, sweep_eq]) ref
    | cleanupEmpty =>
      obtain ⟨_, rfl⟩ := Prod.mk.inj (Option.some.inj hcall)
      exact roomStep_of_heap hop (by rw [cleanupEmpty, sweep_eq]) ref
    | roomCount =>
      obtain ⟨_, rfl⟩ := Prod.mk.inj (Option.some.inj hcall)
      exact roomStep_of_heap hop rfl ref
    | totalParticipants =>
      obtain ⟨_, rfl⟩ := Prod.mk.inj (Option.some.inj hcall)
      exact roomStep_of_heap hop rfl ref
    | join used participantId name => cases hop
    | leave used participantId => cases hop
    | subscribe used => cases hop
    | dropReceiver used rx => cases hop
    | broadcast used frame => cases hop

/-- A room after a call. -/
theorem room_of_call (hcall : m.call op = some (result, m')) {ref : RoomRef} {room : Room}
    (hroom : m.room ref = some room) :
    m'.room ref = some (if op.handle = some ref then op.onRoom room else room) := by
  obtain hafter | ⟨hnone, _⟩ := roomStep_of_call hcall ref
  · rw [hafter, hroom, Option.map_some]
  · rw [hroom] at hnone
    cases hnone

/-- The room behind the handle after a call on it. -/
theorem room_of_handle {ref : RoomRef} (hop : op.handle = some ref)
    (hcall : m.call op = some (result, m')) {room : Room} (hroom : m.room ref = some room) :
    m'.room ref = some (op.onRoom room) := by
  rw [room_of_call hcall hroom, if_pos hop]

/-- A room stays under its id. -/
theorem id_of_call (hcall : m.call op = some (result, m')) {ref : RoomRef} {room : Room}
    (hroom : m.room ref = some room) : ∃ room', m'.room ref = some room' ∧ room'.id = room.id := by
  refine ⟨_, room_of_call hcall hroom, ?_⟩
  split
  · exact (onRoom_shell op room).1
  · rfl

/-- A call on a handle leaves the map alone. -/
theorem rooms_of_handle {used : RoomRef} (hop : op.handle = some used)
    (hcall : m.call op = some (result, m')) : m'.rooms = m.rooms := by
  obtain ⟨_, stats, _, rfl, _⟩ := call_of_handle hop hcall
  rfl

/-- Only dropping a receiver takes it from its room. -/
theorem mem_receivers_onRoom {room : Room} {rx : ReceiverId} (hrx : rx ∈ room.tx.receivers)
    (hop : ∀ ref, op ≠ .dropReceiver ref rx) : rx ∈ (op.onRoom room).tx.receivers := by
  cases op with
  | subscribe ref => exact (AList.mem_insert _).2 (.inr hrx)
  | dropReceiver ref rx' =>
    refine AList.mem_erase.2 ⟨?_, hrx⟩
    intro heq
    exact hop ref (by rw [heq])
  | broadcast ref frame =>
    obtain ⟨sent, hsent⟩ := room.broadcast_room_eq none frame
    rw [RoomOp.onRoom, hsent]
    exact hrx
  | _ => exact hrx

/-- A receiver stays live under every call that does not drop it. -/
theorem mem_receivers_of_call (hcall : m.call op = some (result, m')) {ref : RoomRef} {room : Room}
    (hroom : m.room ref = some room) {rx : ReceiverId} (hrx : rx ∈ room.tx.receivers)
    (hne : op ≠ .dropReceiver ref rx) :
    ∃ room', m'.room ref = some room' ∧ rx ∈ room'.tx.receivers := by
  refine ⟨_, room_of_call hcall hroom, ?_⟩
  split
  · next hop =>
    apply mem_receivers_onRoom hrx
    intro dropped heq
    subst heq
    cases hop
    exact hne rfl
  · exact hrx

/-! ### Frames sent -/

/-- The frames sent so far to the receivers of a room. -/
def sent (m : RoomManager) (ref : RoomRef) : List Frame :=
  (m.room ref).elim [] fun room => room.tx.sent

/-- The number of receivers of a room. -/
def receivers (m : RoomManager) (ref : RoomRef) : ℕ := (m.room ref).elim 0 Room.receiverCount

/-- A call that does not send leaves what was sent to a room as it is. -/
theorem sent_of_call (hop : op.sends = false) (hcall : m.call op = some (result, m'))
    (ref : RoomRef) : m'.sent ref = m.sent ref := by
  have honRoom : ∀ room, (op.onRoom room).tx.sent = room.tx.sent := by
    intro room
    cases op with
    | broadcast used frame => cases hop
    | _ => rfl
  rw [sent, sent]
  obtain hafter | ⟨hnone, roomId, capacity, hafter⟩ := roomStep_of_call hcall ref
  · rw [hafter]
    cases m.room ref with
    | none => rfl
    | some room =>
      change (if op.handle = some ref then op.onRoom room else room).tx.sent = room.tx.sent
      split
      · exact honRoom room
      · rfl
  · rw [hafter, hnone]
    rfl

/-- A broadcast sends its frame to its room, when the room has receivers. -/
theorem sent_of_broadcast {used : RoomRef} {frame : Frame} {sentResult : Outcome WsError ℕ}
    (h : m.broadcast used frame = some (sentResult, m')) (ref : RoomRef) :
    m'.sent ref = m.sent ref ++ if ref = used ∧ m.receivers used ≠ 0 then [frame] else [] := by
  obtain ⟨room, hroom, heq⟩ := Option.map_eq_some_iff.1 h
  obtain ⟨_, rfl⟩ := Prod.mk.inj heq
  have hreceivers : m.receivers used = room.receiverCount := by rw [receivers, hroom, Option.elim_some]
  rw [hreceivers, sent, sent]
  change ((m.modifyRoom used _).room ref).elim [] _ = _
  rw [room_modifyRoom]
  by_cases href : ref = used
  · rw [if_pos href, href, hroom]
    by_cases hnobody : room.receiverCount = 0
    · rw [Room.broadcast_of_receiverCount_eq_zero hnobody, if_neg fun h => h.2 hnobody,
        List.append_nil]
      rfl
    · rw [Room.broadcast_of_receiverCount_ne_zero hnobody, if_pos ⟨rfl, hnobody⟩]
      rfl
  · rw [if_neg href, if_neg fun h => href h.1, List.append_nil]

end WsKit.RoomManager
