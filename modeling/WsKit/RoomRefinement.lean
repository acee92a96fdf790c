import WsKit.RoomInvariant
import WsKit.RoomStore

/-!
# The room manager refines the room store

Every call on a manager, and on any handle it ever returned, is a step of the store that the
manager stands for.
-/

namespace WsKit

open Base

namespace RoomManager

/-- A room as its users see it. -/
def storedRoom (room : Room) : StoredRoom :=
  ⟨room.id, AList.toFinmap room.participants, room.tx.receivers.keys.toFinset⟩

/-- The store hosts the rooms that are mapped. -/
def toStore (m : RoomManager) : Store :=
  ⟨fun ref => (m.room ref).map storedRoom, (Map.values m.rooms).toFinset⟩

variable {m : RoomManager}

/-- A receiver is live when the channel has it. -/
theorem mem_live {room : Room} {rx : ReceiverId} :
    rx ∈ (storedRoom room).live ↔ rx ∈ room.tx.receivers := by
  rw [storedRoom, List.mem_toFinset, ← AList.mem_keys]

/-- A room of the manager in the store. -/
theorem toStore_room {ref : RoomRef} {room : Room} (h : m.room ref = some room) :
    m.toStore.room ref = some (storedRoom room) := by
  change (m.room ref).map storedRoom = _
  rw [h, Option.map_some]

/-- The store hosts as many rooms as are mapped. -/
theorem WellFormed.card_hosted (h : m.WellFormed) : m.toStore.hosted.card = m.roomCount := by
  rw [toStore, List.toFinset_card_of_nodup h.nodup_values, Map.values, List.length_map]
  rfl

/-- The store hosts under an id what the manager maps it to. -/
theorem WellFormed.hosts_iff (h : m.WellFormed) {roomId : Str} {ref : RoomRef} :
    m.toStore.Hosts roomId ref ↔ m.get roomId = some ref := by
  unfold Store.Hosts toStore
  refine ⟨fun ⟨hmem, r, hr, hid⟩ => ?_, fun hget => ?_⟩
  · obtain ⟨roomId', hget⟩ := Map.mem_values.1 (List.mem_toFinset.1 hmem)
    obtain ⟨room, hroom, hid'⟩ := h.mapped roomId' ref hget
    simp only [hroom, Option.map_some, Option.some.injEq] at hr
    have heq : roomId' = roomId := by rw [← hid, ← hr, ← hid']; rfl
    rw [← heq]
    exact hget
  · obtain ⟨room, hroom, hid⟩ := h.mapped roomId ref hget
    refine ⟨List.mem_toFinset.2 (Map.mem_values.2 ⟨roomId, hget⟩), storedRoom room, ?_, hid⟩
    simp only [hroom, Option.map_some]

/-- The store hosts nothing under an id that is not mapped. -/
theorem WellFormed.not_hosts (h : m.WellFormed) {roomId : Str} (hget : m.get roomId = none)
    (ref : RoomRef) : ¬ m.toStore.Hosts roomId ref := by
  rw [h.hosts_iff, hget]
  exact Option.some_ne_none ref ∘ Eq.symm

/-- Changing a room changes it in the store. -/
theorem toStore_modifyRoom {ref : RoomRef} {room : Room} (h : m.room ref = some room)
    (f : Room → Room) :
    (m.modifyRoom ref f).toStore = m.toStore.setRoom ref (storedRoom (f room)) := by
  unfold toStore Store.setRoom
  congr 1
  funext ref'
  rw [room_modifyRoom, Function.update_apply]
  split
  · next heq => rw [heq, h]; rfl
  · rfl

/-- Making and mapping a room hosts it. -/
theorem toStore_withRoom {roomId : Str} (h : m.get roomId = none) (capacity : ℕ) :
    (m.withRoom roomId capacity).toStore = m.toStore.host m.heap.length roomId := by
  unfold toStore Store.host Store.setRoom
  congr 1
  · funext ref
    simp only [room_withRoom, Function.update_apply]
    split
    · rfl
    · rfl
  · have hvalues := Map.values_insert (AList.lookup_eq_none.1 h) m.heap.length
    rw [withRoom, hvalues, List.toFinset_cons]

/-- The hosted rooms are the mapped ones. -/
theorem mem_hosted {ref : RoomRef} :
    ref ∈ m.toStore.hosted ↔ ∃ roomId, m.get roomId = some ref := by
  rw [toStore, List.mem_toFinset, Map.mem_values]
  rfl

/-- Removing a mapped id releases its room from the store. -/
theorem WellFormed.toStore_remove (h : m.WellFormed) {roomId : Str} {ref : RoomRef}
    (hget : m.get roomId = some ref) : (m.remove roomId).2.toStore = m.toStore.release {ref} := by
  rw [remove_of_get hget]
  unfold Store.release
  refine congrArg (Store.mk _) (Finset.ext fun ref' => ?_)
  rw [Finset.mem_sdiff, Finset.mem_singleton, mem_hosted, List.mem_toFinset, Map.mem_values]
  refine ⟨fun ⟨roomId', hlookup⟩ => ?_, fun ⟨⟨roomId', hget'⟩, hne⟩ => ⟨roomId', ?_⟩⟩
  · obtain ⟨hother, hget'⟩ := Map.lookup_erase_eq_some_iff.1 hlookup
    refine ⟨⟨roomId', hget'⟩, fun hsame => hother ?_⟩
    rw [hsame] at hget'
    exact h.get_injective hget' hget
  · refine Map.lookup_erase_eq_some_iff.2 ⟨fun heq => ?_, hget'⟩
    rw [heq, hget] at hget'
    exact hne (Option.some.inj hget').symm

/-- A sweep releases exactly the hosted rooms that satisfy its predicate. -/
theorem toStore_sweep (m : RoomManager) {p : Room → Bool} {P : StoredRoom → Prop}
    (hp : ∀ room, p room = true ↔ P (storedRoom room)) :
    (m.sweep p).2.toStore = m.toStore.release (m.toStore.hostedWhere P) := by
  rw [sweep_eq]
  unfold Store.release
  refine congrArg (Store.mk _) (Finset.ext fun ref => ?_)
  rw [Finset.mem_sdiff, Store.mem_hostedWhere, mem_hosted, List.mem_toFinset, Map.mem_values]
  refine ⟨fun ⟨roomId, hlookup⟩ => ?_, fun ⟨⟨roomId, hget⟩, hkept⟩ => ⟨roomId, ?_⟩⟩
  · obtain ⟨hunlisted, hget⟩ := Map.lookup_eraseAll_eq_some_iff.1 hlookup
    refine ⟨⟨roomId, hget⟩, fun ⟨_, r, hr, hP⟩ => hunlisted (mem_listed.2 ?_)⟩
    obtain ⟨room, hroom, rfl⟩ := Option.map_eq_some_iff.1 hr
    exact ⟨ref, room, hget, hroom, (hp room).2 hP⟩
  · refine Map.lookup_eraseAll_eq_some_iff.2 ⟨fun hlisted => ?_, hget⟩
    obtain ⟨ref', room, hget', hroom, hproom⟩ := mem_listed.1 hlisted
    rw [hget, Option.some.injEq] at hget'
    subst hget'
    exact hkept ⟨⟨roomId, hget⟩, storedRoom room, toStore_room hroom, (hp room).1 hproom⟩

/-- A sweep reports the number of rooms that it releases. -/
theorem WellFormed.sweep_fst (h : m.WellFormed) {p : Room → Bool} {P : StoredRoom → Prop}
    (hp : ∀ room, p room = true ↔ P (storedRoom room)) :
    (m.sweep p).1 = (m.toStore.hostedWhere P).card := by
  have hcard := (h.sweep p).card_hosted
  have hsize := size_eraseAll_listed m p
  have hhosted := h.card_hosted
  have hsub := m.toStore.hostedWhere_subset P
  have hle := Finset.card_le_card hsub
  rw [toStore_sweep m hp, Store.release, Finset.card_sdiff_of_subset hsub] at hcard
  have hcount : (m.sweep p).2.roomCount = Map.size (Map.eraseAll m.rooms (m.listed p)) := by
    rw [sweep_eq]
    rfl
  have hlength : (m.sweep p).1 = (m.listed p).length := by rw [sweep_eq]
  omega

/-- The roster has as many entries as the room tracks participants. -/
theorem card_roster (room : Room) : (storedRoom room).roster.keys.card = room.participantCount :=
  (Map.size_eq_length_keys room.participants).symm

/-- A room without participants is deserted. -/
theorem participantCount_eq_zero_iff (room : Room) :
    decide (room.participantCount = 0) = true ↔ (storedRoom room).Deserted := by
  rw [decide_eq_true_iff, StoredRoom.Deserted, ← Finset.card_eq_zero, card_roster]

/-- The roster size of a room in the store. -/
theorem rosterSize_toStore (m : RoomManager) (ref : RoomRef) :
    m.toStore.rosterSize ref = (m.room ref).elim 0 Room.participantCount := by
  change ((m.room ref).map storedRoom).elim 0 _ = _
  cases m.room ref with
  | none => rfl
  | some room => exact card_roster room

/-- The total is the sum of the roster sizes of the hosted rooms. -/
theorem WellFormed.totalParticipants_eq (h : m.WellFormed) :
    m.totalParticipants = m.toStore.hosted.sum m.toStore.rosterSize := by
  rw [toStore, List.sum_toFinset _ h.nodup_values, totalParticipants]
  refine congrArg List.sum (List.map_congr_left fun ref _ => ?_)
  exact (rosterSize_toStore m ref).symm

section AnyChannel

variable [ChannelApi Frame]

/-- The live receivers are as many as the channel counts. -/
theorem card_live (room : Room) : (storedRoom room).live.card = room.receiverCount := by
  rw [Room.receiverCount_eq]
  change room.tx.receivers.keys.toFinset.card = Map.size room.tx.receivers
  rw [List.toFinset_card_of_nodup room.tx.receivers.keys_nodup, Map.size_eq_length_keys]

/-- A room without participants and receivers is idle. -/
theorem isEmpty_iff_idle (room : Room) : room.isEmpty = true ↔ (storedRoom room).Idle := by
  rw [Room.isEmpty, Bool.and_eq_true, decide_eq_true_iff, decide_eq_true_iff, StoredRoom.Idle,
    ← Finset.card_eq_zero, ← Finset.card_eq_zero, card_roster, card_live]

/-! ### Every call is a step of the store -/

/-- A call keeps the invariant and is a step of the store. -/
structure Refines (m : RoomManager) (op : RoomOp) (result : RoomResult) (m' : RoomManager) :
    Prop where
  wellFormed : m'.WellFormed
  metered : m.Metered → m'.Metered
  defaultCapacity : m'.defaultCapacity = m.defaultCapacity
  recorded : m'.stats.isSome = m.stats.isSome
  step : Store.Step m.defaultCapacity m.toStore op result m'.toStore

/-- A call that only reads refines the store when its result is right. -/
theorem WellFormed.refines_read (h : m.WellFormed) {op : RoomOp} {result : RoomResult}
    (hstep : Store.Step m.defaultCapacity m.toStore op result m.toStore) : Refines m op result m :=
  ⟨h, id, rfl, rfl, hstep⟩

/-- Asking for a room refines the store: the mapped room, a new one, or a panic. -/
theorem WellFormed.refines_answer (h : m.WellFormed) {op : RoomOp} {roomId : Str} {capacity : ℕ}
    (hop : Store.Creates m.defaultCapacity op roomId capacity) :
    Refines m op (m.answer (m.getOrCreateWithCapacity roomId capacity)).1
      (m.answer (m.getOrCreateWithCapacity roomId capacity)).2 := by
  cases hget : m.get roomId with
  | some ref =>
    rw [getOrCreateWithCapacity_of_get hget]
    exact h.refines_read (.reuse hop (h.hosts_iff.2 hget))
  | none =>
    by_cases hcapacity : AcceptedCapacity Frame capacity
    · rw [getOrCreateWithCapacity_of_accepted hget hcapacity]
      have hfresh : m.toStore.room m.heap.length = none := by
        change (m.heap[m.heap.length]?).map storedRoom = none
        rw [List.getElem?_eq_none (Nat.le_refl _), Option.map_none]
      refine ⟨h.withRoom roomId capacity, fun hmetered => hmetered.withRoom hget capacity, rfl,
        Option.isSome_map, ?_⟩
      change Store.Step _ _ op (.room m.heap.length) (m.withRoom roomId capacity).toStore
      rw [toStore_withRoom hget]
      exact .create hop (h.not_hosts hget) hcapacity hfresh
    · rw [getOrCreateWithCapacity_of_not_accepted hget hcapacity]
      exact h.refines_read (.panic hop (h.not_hosts hget) hcapacity)

/-- Looking an id up refines the store. -/
theorem WellFormed.refines_get (h : m.WellFormed) (roomId : Str) :
    Refines m (.get roomId) (.found (m.get roomId)) m := by
  apply h.refines_read
  cases hget : m.get roomId with
  | some ref => exact .get (h.hosts_iff.2 hget)
  | none => exact .getMissing (h.not_hosts hget)

/-- Removing an id refines the store. -/
theorem WellFormed.refines_remove (h : m.WellFormed) (roomId : Str) :
    Refines m (.remove roomId) (.found (m.remove roomId).1) (m.remove roomId).2 := by
  have hwell := h.remove roomId
  have hmetered : m.Metered → (m.remove roomId).2.Metered := fun hm => hm.remove roomId
  cases hget : m.get roomId with
  | some ref =>
    have hstore := h.toStore_remove hget
    rw [remove_of_get hget] at hwell hmetered hstore ⊢
    refine ⟨hwell, hmetered, rfl, Option.isSome_map, ?_⟩
    rw [hstore]
    exact .remove (h.hosts_iff.2 hget)
  | none =>
    rw [remove_of_get_none hget]
    exact h.refines_read (.removeMissing (h.not_hosts hget))

/-- A sweep refines the store when it is the call's own. -/
theorem WellFormed.refines_sweep (h : m.WellFormed) {op : RoomOp} {p : Room → Bool}
    {P : StoredRoom → Prop} (hp : ∀ room, p room = true ↔ P (storedRoom room))
    (hstep : Store.Step m.defaultCapacity m.toStore op (.count (m.toStore.hostedWhere P).card)
      (m.toStore.release (m.toStore.hostedWhere P))) :
    Refines m op (.count (m.sweep p).1) (m.sweep p).2 := by
  refine ⟨h.sweep p, fun hmetered => hmetered.sweep p, by rw [sweep_eq], ?_, ?_⟩
  · rw [sweep_eq, Option.isSome_map]
  · rw [toStore_sweep m hp, h.sweep_fst hp]
    exact hstep

/-- A call on a handle refines the store when it changes the room as the store says. -/
theorem WellFormed.refines_use (h : m.WellFormed) {op : RoomOp} {ref : RoomRef} {room : Room}
    {result : RoomResult} {m' : RoomManager} (hop : op.handle = some ref)
    (hroom : m.room ref = some room) (hcall : m.call op = some (result, m'))
    (hstep : Store.Step m.defaultCapacity m.toStore op result
      (m.toStore.setRoom ref (storedRoom (op.onRoom room)))) : Refines m op result m' := by
  have hwell := h.use hop hcall
  have hmetered : m.Metered → m'.Metered := fun hm => hm.use hop hcall
  obtain ⟨_, stats, _, rfl, hstats⟩ := call_of_handle hop hcall
  refine ⟨hwell, hmetered, rfl, ?_, ?_⟩
  · have hsome := congrArg Option.isSome hstats
    rwa [roomsGauge, Option.isSome_map, Option.isSome_map] at hsome
  · rw [← toStore_modifyRoom hroom] at hstep
    exact hstep

/-- Joining refines the store. -/
theorem step_join {ref : RoomRef} {room : Room} (hroom : m.room ref = some room)
    (participantId : UInt32) (name : Str) :
    Store.Step m.defaultCapacity m.toStore (.join ref participantId name) .joined
      (m.toStore.setRoom ref (storedRoom (room.join participantId name))) := by
  have hstored : storedRoom (room.join participantId name) =
      { storedRoom room with roster := (storedRoom room).roster.insert participantId name } := by
    simp only [storedRoom, Room.join, Finmap.insert_toFinmap]
  rw [hstored]
  exact .join participantId name (toStore_room hroom)

/-- Leaving refines the store. -/
theorem step_leave {ref : RoomRef} {room : Room} (hroom : m.room ref = some room)
    (participantId : UInt32) :
    Store.Step m.defaultCapacity m.toStore (.leave ref participantId)
      (.left (room.leave participantId).1)
      (m.toStore.setRoom ref (storedRoom (room.leave participantId).2)) := by
  have hstored : storedRoom (room.leave participantId).2 =
      { storedRoom room with roster := (storedRoom room).roster.erase participantId } := by
    simp only [storedRoom, Room.leave, Finmap.erase_toFinmap]
  have hpresent : (room.leave participantId).1 =
      decide (participantId ∈ (storedRoom room).roster) := by
    rw [Bool.eq_iff_iff, decide_eq_true_iff, storedRoom, Finmap.mem_toFinmap]
    change (room.participants.lookup participantId).isSome = true ↔ _
    exact AList.lookup_isSome
  rw [hstored, hpresent]
  exact .leave participantId (toStore_room hroom)

/-- Subscribing refines the store: the new receiver is none of the live ones. -/
theorem step_subscribe {ref : RoomRef} {room : Room} (hroom : m.room ref = some room)
    (hvalid : room.tx.Valid) :
    Store.Step m.defaultCapacity m.toStore (.subscribe ref) (.subscribed room.subscribe.1)
      (m.toStore.setRoom ref (storedRoom room.subscribe.2)) := by
  have hfresh := hvalid.created_notMem
  have hkeys : room.tx.receivers.keys.erase room.tx.created = room.tx.receivers.keys :=
    List.erase_of_not_mem (AList.mem_keys.not.1 hfresh)
  have hstored : storedRoom room.subscribe.2 =
      { storedRoom room with live := insert room.tx.created (storedRoom room).live } := by
    simp only [storedRoom, Room.subscribe, Channel.subscribe, AList.keys_insert, hkeys,
      List.toFinset_cons]
  rw [hstored]
  exact .subscribe (toStore_room hroom) (mem_live.not.2 hfresh)

/-- Dropping a live receiver refines the store. -/
theorem step_dropReceiver {ref : RoomRef} {room : Room} (hroom : m.room ref = some room)
    {rx : ReceiverId} (hrx : rx ∈ room.tx.receivers) :
    Store.Step m.defaultCapacity m.toStore (.dropReceiver ref rx) .dropped
      (m.toStore.setRoom ref (storedRoom (room.dropReceiver rx))) := by
  have hstored : storedRoom (room.dropReceiver rx) =
      { storedRoom room with live := (storedRoom room).live.erase rx } := by
    refine congrArg (StoredRoom.mk _ _) (Finset.ext fun rx' => ?_)
    rw [Finset.mem_erase, mem_live]
    exact mem_live.trans AList.mem_erase
  rw [hstored]
  exact .dropReceiver (toStore_room hroom) (mem_live.2 hrx)

/-- Broadcasting refines the store: it counts the live receivers and moves nobody. -/
theorem step_broadcast {ref : RoomRef} {room : Room} (hroom : m.room ref = some room)
    (frame : Frame) :
    Store.Step m.defaultCapacity m.toStore (.broadcast ref frame)
      (.broadcasted (room.broadcast m.stats frame).1)
      (m.toStore.setRoom ref (storedRoom (room.broadcast none frame).2.1)) := by
  obtain ⟨sent, hsent⟩ := room.broadcast_room_eq none frame
  have hstored : storedRoom (room.broadcast none frame).2.1 = storedRoom room := by
    rw [hsent]
    rfl
  rw [hstored, Store.setRoom_self (toStore_room hroom)]
  by_cases hnobody : room.receiverCount = 0
  · rw [Room.broadcast_of_receiverCount_eq_zero hnobody]
    refine .broadcastNobody frame (toStore_room hroom) ?_
    rw [← Finset.card_eq_zero, card_live]
    exact hnobody
  · rw [Room.broadcast_of_receiverCount_ne_zero hnobody, ← card_live room]
    refine .broadcast frame (toStore_room hroom) ?_
    rw [← Finset.card_ne_zero, card_live]
    exact hnobody

/-- Every call refines the store. -/
theorem WellFormed.refines_call (h : m.WellFormed) {op : RoomOp} {result : RoomResult}
    {m' : RoomManager} (hcall : m.call op = some (result, m')) : Refines m op result m' := by
  cases op with
  | getOrCreate roomId =>
    obtain ⟨rfl, rfl⟩ := Prod.mk.inj (Option.some.inj hcall)
    exact h.refines_answer (.default roomId)
  | getOrCreateWithCapacity roomId capacity =>
    obtain ⟨rfl, rfl⟩ := Prod.mk.inj (Option.some.inj hcall)
    exact h.refines_answer (.custom roomId capacity)
  | get roomId =>
    obtain ⟨rfl, rfl⟩ := Prod.mk.inj (Option.some.inj hcall)
    exact h.refines_get roomId
  | remove roomId =>
    obtain ⟨rfl, rfl⟩ := Prod.mk.inj (Option.some.inj hcall)
    exact h.refines_remove roomId
  | cleanup =>
    obtain ⟨rfl, rfl⟩ := Prod.mk.inj (Option.some.inj hcall)
    exact h.refines_sweep isEmpty_iff_idle .cleanup
  | cleanupEmpty =>
    obtain ⟨rfl, rfl⟩ := Prod.mk.inj (Option.some.inj hcall)
    exact h.refines_sweep participantCount_eq_zero_iff .cleanupEmpty
  | roomCount =>
    obtain ⟨rfl, rfl⟩ := Prod.mk.inj (Option.some.inj hcall)
    apply h.refines_read
    rw [← h.card_hosted]
    exact .roomCount
  | totalParticipants =>
    obtain ⟨rfl, rfl⟩ := Prod.mk.inj (Option.some.inj hcall)
    apply h.refines_read
    rw [h.totalParticipants_eq]
    exact .totalParticipants
  | join ref participantId name =>
    obtain ⟨room, hroom, heq⟩ := Option.map_eq_some_iff.1 hcall
    obtain ⟨rfl, _⟩ := Prod.mk.inj heq
    exact h.refines_use rfl hroom hcall (step_join hroom participantId name)
  | leave ref participantId =>
    obtain ⟨room, hroom, heq⟩ := Option.map_eq_some_iff.1 hcall
    obtain ⟨rfl, _⟩ := Prod.mk.inj heq
    exact h.refines_use rfl hroom hcall (step_leave hroom participantId)
  | subscribe ref =>
    obtain ⟨room, hroom, heq⟩ := Option.map_eq_some_iff.1 hcall
    obtain ⟨rfl, _⟩ := Prod.mk.inj heq
    exact h.refines_use rfl hroom hcall (step_subscribe hroom (h.channels ref room hroom))
  | dropReceiver ref rx =>
    obtain ⟨room, hroom, heq⟩ := Option.bind_eq_some_iff.1 hcall
    obtain ⟨hrx, heq⟩ := Option.ite_none_right_eq_some.1 heq
    obtain ⟨rfl, _⟩ := Prod.mk.inj (Option.some.inj heq)
    exact h.refines_use rfl hroom hcall (step_dropReceiver hroom hrx)
  | broadcast ref frame =>
    obtain ⟨sent, hsent, heq⟩ := Option.map_eq_some_iff.1 hcall
    obtain ⟨rfl, _⟩ := Prod.mk.inj heq
    obtain ⟨room, hroom, rfl⟩ := Option.map_eq_some_iff.1 hsent
    exact h.refines_use rfl hroom hcall (step_broadcast hroom frame)

/-- Removing a room and asking for its id again makes a room that shares nothing with the old
one. -/
theorem WellFormed.fresh_after_remove (h : m.WellFormed) {roomId : Str} {capacity : ℕ}
    {old new : RoomRef} {op : RoomOp} {removed made : RoomManager}
    (hop : Store.Creates m.defaultCapacity op roomId capacity)
    (hremove : m.call (.remove roomId) = some (.found (some old), removed))
    (hcreate : removed.call op = some (.room new, made)) :
    new ≠ old ∧ made.toStore.room old = m.toStore.room old ∧ old ∉ made.toStore.hosted ∧
      made.toStore.room new = some ⟨roomId, ∅, ∅⟩ := by
  have hremoved := h.refines_call hremove
  have hmade := hremoved.wellFormed.refines_call hcreate
  rw [← hremoved.defaultCapacity] at hop
  have hcases := hmade.step.room_of_creates hop
  have hstep := hremoved.step
  generalize hst' : removed.toStore = st' at hstep hcases
  cases hstep with
  | remove hold =>
    have hget := h.hosts_iff.1 hold
    obtain ⟨hroom, hexists⟩ := hold
    obtain ⟨⟨hnew, hid⟩, _⟩ | ⟨_, hfresh, hst⟩ := hcases
    · obtain ⟨hmem, hne⟩ := Finset.mem_sdiff.1 hnew
      have hget' := h.hosts_iff.1 ⟨hmem, hid⟩
      rw [hget, Option.some.injEq] at hget'
      exact absurd (Finset.mem_singleton.2 hget'.symm) hne
    · obtain ⟨r, hr, _⟩ := hexists
      have hne : new ≠ old := by
        intro heq
        rw [heq] at hfresh
        exact Option.some_ne_none r (hr.symm.trans hfresh)
      rw [hst]
      refine ⟨hne, Function.update_of_ne hne.symm _ _, ?_, Function.update_self _ _ _⟩
      intro hmem
      obtain heq | hmem := Finset.mem_insert.1 hmem
      · exact hne heq.symm
      · exact (Finset.mem_sdiff.1 hmem).2 (Finset.mem_singleton_self old)

/-- Every run of calls on a manager, and on the handles that it has returned, is a run of the
store. After each call the gauge is the number of hosted rooms and the total is the sum of their
rosters, and removing a room makes its id free for a room that shares nothing with it. -/
theorem run_refines_store (broadcastCapacity : ℕ) {ops : List RoomOp} {m : RoomManager}
    {tr : List (RoomOp × RoomResult)}
    (hrun : machine.run ops (withStats broadcastCapacity .new, []) = some (m, tr)) :
    Store.Run broadcastCapacity tr m.toStore ∧
    m.roomsGauge = some m.toStore.hosted.card ∧
    m.roomCount = m.toStore.hosted.card ∧
    m.totalParticipants = m.toStore.hosted.sum m.toStore.rosterSize ∧
    ∀ roomId capacity op old new removed made,
      Store.Creates broadcastCapacity op roomId capacity →
      m.call (.remove roomId) = some (.found (some old), removed) →
      removed.call op = some (.room new, made) →
      new ≠ old ∧ made.toStore.room old = m.toStore.room old ∧ old ∉ made.toStore.hosted ∧
        made.toStore.room new = some ⟨roomId, ∅, ∅⟩ := by
  have hinv := Machine.run_induct_all
    (P := fun m tr => m.WellFormed ∧ m.Metered ∧ m.defaultCapacity = broadcastCapacity ∧
      m.stats.isSome = true ∧ Store.Run broadcastCapacity tr m.toStore)
    (fun m tr op m' out hP hstep => by
      obtain ⟨hwell, hmetered, hcapacity, hstats, hstore⟩ := hP
      obtain ⟨⟨result, next⟩, hcall, heq⟩ := Option.map_eq_some_iff.1 hstep
      obtain ⟨rfl, rfl⟩ := Prod.mk.inj heq
      have href := hwell.refines_call hcall
      have hstep := href.step
      rw [hcapacity] at hstep
      exact ⟨href.wellFormed, href.metered hmetered, href.defaultCapacity.trans hcapacity,
        href.recorded.trans hstats, hstore.snoc hstep⟩)
    hrun ⟨wellFormed_empty broadcastCapacity _, metered_withStats broadcastCapacity, rfl, rfl, .nil⟩
  obtain ⟨hwell, hmetered, hcapacity, hstats, hstore⟩ := hinv
  refine ⟨hstore, ?_, hwell.card_hosted.symm, hwell.totalParticipants_eq, ?_⟩
  · obtain ⟨recorder, hrecorder⟩ := Option.isSome_iff_exists.1 hstats
    rw [hwell.card_hosted, roomsGauge, hrecorder, Option.map_some, hmetered.snapshot_rooms hrecorder]
  · intro roomId capacity op old new removed made hop hremove hcreate
    rw [← hcapacity] at hop
    exact hwell.fresh_after_remove hop hremove hcreate

end AnyChannel

/-- A room is joined, removed and made again while its old handle stays in use. -/
def reopenedLobby : List RoomOp :=
  [.getOrCreate ['l'], .join 0 7 ['n'], .subscribe 0, .cleanup, .remove ['l'], .getOrCreate ['l'],
    .join 1 8 ['m'], .broadcast 0 (.binary [1]), .cleanupEmpty, .totalParticipants]

/-- The store of the reopened lobby hosts the second room only. -/
theorem run_refines_store_reopenedLobby : ∃ m tr,
    machine.run reopenedLobby (withStats 16 .new, []) = some (m, tr) ∧
      Store.Run 16 tr m.toStore ∧ m.roomsGauge = some m.toStore.hosted.card ∧
      m.roomsGauge = some 1 ∧ m.totalParticipants = 1 := by
  have hseen : (machine.run reopenedLobby (withStats 16 .new, [])).map
      (fun c => (c.1.roomsGauge, c.1.totalParticipants)) = some (some 1, 1) := by decide
  obtain ⟨⟨m, tr⟩, hrun, heq⟩ := Option.map_eq_some_iff.1 hseen
  obtain ⟨hgauge, htotal⟩ := Prod.mk.inj heq
  have hstore := run_refines_store 16 hrun
  exact ⟨m, tr, hrun, hstore.1, hstore.2.1, hgauge, htotal⟩

end RoomManager

end WsKit
