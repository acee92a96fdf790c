import WsKit.RedisRooms
import WsKit.RoomListeners
import WsKit.RoomRefinement

/-!
# Input from other nodes

Raw envelopes come from an untrusted bus. Applying one either leaves the registry as it is or
sends one frame to one room that the node hosts, and the subscriber loop drops the errors. Local
calls and messages together are the runs of the registry; its receivers read at any time. A frame
that is sent goes behind what the room's receivers have queued, and pushes the oldest frame out of a
queue that is full, as a local broadcast does.
-/

namespace WsKit

open Base

namespace RedisRoomRegistry

/-- The local receiver count when a frame was delivered; a room without receivers is fine. -/
def deliveredCount : Outcome WsError ℕ → Outcome WsError (Option ℕ)
  | .ok n => .ok (some n)
  | .error (.failed .broadcastFull) => .ok none
  | .error e => .error e

section AnyChannel

variable [ChannelApi Frame]

/-- Apply a raw pub/sub envelope to the local registry. A handle that was never made cannot be
used. -/
def applyRemote (reg : RedisRoomRegistry) (roomId : Str) (envelope : Bytes) :
    Option (Outcome WsError (Option ℕ) × RedisRoomRegistry) :=
  match decodeEnvelope envelope with
  | .error fault => some (.error fault, reg)
  | .ok (publisher, frame) =>
    if publisher = reg.nodeId then some (.ok none, reg)
    else
      match reg.localRooms.get roomId with
      | some ref => (reg.localRooms.broadcast ref frame).map fun sent =>
          (deliveredCount sent.1, { reg with localRooms := sent.2 })
      | none => some (.ok none, reg)

/-- What the subscriber loop does with a message; the result of applying it is dropped. -/
def receive (reg : RedisRoomRegistry) (channel : Str) (payload : Bytes) : RedisRoomRegistry :=
  match reg.roomIdFromChannel channel with
  | some roomId => (reg.applyRemote roomId payload).elim reg Prod.snd
  | none => reg

/-- The subscriber loop on the messages of its stream. -/
def runSubscriber (reg : RedisRoomRegistry) (messages : List (Str × Bytes)) : RedisRoomRegistry :=
  messages.foldl (fun reg message => reg.receive message.1 message.2) reg

/-- A registry that hosts no room yet. -/
def fromParts (defaultCapacity : ℕ) (stats : Option StatsRecorder) (channelPrefix : Str)
    (nodeId : NodeId) : RedisRoomRegistry :=
  ⟨.empty defaultCapacity stats, channelPrefix, nodeId⟩

/-- A call on the local half, or a message for the subscriber loop. -/
inductive Event where
  | call (op : RoomOp)
  | message (channel : Str) (payload : Bytes)

/-- Calls and messages one after another, with the results of the calls. -/
def machine : Machine RedisRoomRegistry Event RoomResult where
  step reg
    | .call op => (reg.localRooms.call op).map fun called =>
        ({ reg with localRooms := called.2 }, [called.1])
    | .message channel payload => some (reg.receive channel payload, [])

/-- A registry in use: how many frames each receiver of each room has read or missed. -/
structure InUse where
  registry : RedisRoomRegistry
  passed : RoomRef → ReceiverId → ℕ

/-- The local rooms and their receivers. -/
def InUse.rooms (s : InUse) : RoomManager.InUse := ⟨s.registry.localRooms, s.passed⟩

/-- A call or a message, or a receiver of a room that asks for a frame. -/
inductive Use where
  | event (e : Event)
  | recv (ref : RoomRef) (rx : ReceiverId)

/-- The result of a call, or what a receiver was told. -/
inductive Seen where
  | called (result : RoomResult)
  | received (ref : RoomRef) (rx : ReceiverId) (answer : Received Frame)

/-- Calls, messages and reads one after another. -/
def attended : Machine InUse Use Seen where
  step s
    | .event e => (machine.step s.registry e).map fun next =>
        ({ s with registry := next.1 }, next.2.map .called)
    | .recv ref rx => (s.registry.localRooms.room ref).bind fun room =>
        ((Listening.mk room.tx (s.passed ref)).recv rx).map fun got =>
          ({ s with passed := Function.update s.passed ref got.2.passed },
            [.received ref rx got.1])

/-- A registry that hosts no room yet. -/
def InUse.start (defaultCapacity : ℕ) (stats : Option StatsRecorder) (channelPrefix : Str)
    (nodeId : NodeId) : InUse :=
  ⟨fromParts defaultCapacity stats channelPrefix nodeId, fun _ _ => 0⟩

/-- The frames that a receiver of a room has unread and the room's channel still holds. -/
def InUse.queue (s : InUse) (ref : RoomRef) (rx : ReceiverId) : List Frame :=
  (s.registry.localRooms.room ref).elim [] fun room =>
    Listening.queue ⟨room.tx, s.passed ref⟩ rx

/-! ### One envelope -/

/-- Applying an envelope locates its room and sends to it. -/
theorem applyRemote_eq_locate (reg : RedisRoomRegistry) (roomId : Str) (envelope : Bytes) :
    reg.applyRemote roomId envelope =
      match reg.locate roomId envelope with
      | .error fault => some (.error fault, reg)
      | .ok none => some (.ok none, reg)
      | .ok (some (ref, frame)) => (reg.localRooms.broadcast ref frame).map fun sent =>
          (deliveredCount sent.1, { reg with localRooms := sent.2 }) := by
  rw [applyRemote, locate]
  cases decodeEnvelope envelope with
  | error fault => rfl
  | ok decoded =>
    simp only [bind, Except.bind]
    by_cases hself : decoded.1 = reg.nodeId
    · rw [if_pos hself, if_pos hself]
      rfl
    · rw [if_neg hself, if_neg hself]
      cases reg.localRooms.get roomId <;> rfl

/-- Bytes that do not decode are refused without effect. -/
theorem applyRemote_of_malformed {reg : RedisRoomRegistry} {envelope : Bytes}
    (h : ¬ WellFormedEnvelope envelope) (roomId : Str) :
    reg.applyRemote roomId envelope = some (.error (.failed .invalidMessage), reg) := by
  rw [applyRemote, decodeEnvelope_of_not_wellFormed h]

/-- The node's own echo has no effect. -/
theorem applyRemote_of_echo {reg : RedisRoomRegistry} {envelope : Bytes} {frame : Frame}
    (h : decodeEnvelope envelope = .ok (reg.nodeId, frame)) (roomId : Str) :
    reg.applyRemote roomId envelope = some (.ok none, reg) := by
  simp only [applyRemote, h, if_true]

/-- An envelope for a room that is not hosted has no effect. -/
theorem applyRemote_of_unhosted {reg : RedisRoomRegistry} {envelope : Bytes} {publisher : NodeId}
    {frame : Frame} {roomId : Str} (h : decodeEnvelope envelope = .ok (publisher, frame))
    (hget : reg.localRooms.get roomId = none) :
    reg.applyRemote roomId envelope = some (.ok none, reg) := by
  simp only [applyRemote, h, hget, ite_self]

/-- An envelope of another node for a hosted room is sent to it. -/
theorem applyRemote_of_hosted {reg : RedisRoomRegistry} {envelope : Bytes} {publisher : NodeId}
    {frame : Frame} {roomId : Str} {ref : RoomRef}
    (h : decodeEnvelope envelope = .ok (publisher, frame)) (hother : publisher ≠ reg.nodeId)
    (hget : reg.localRooms.get roomId = some ref) :
    reg.applyRemote roomId envelope = (reg.localRooms.broadcast ref frame).map fun sent =>
      (deliveredCount sent.1, { reg with localRooms := sent.2 }) := by
  simp only [applyRemote, h, if_neg hother, hget]

/-! ### What a delivery changes -/

/-- The counters of a room and the global traffic counters may differ, no others. -/
structure OnlyTraffic (roomId : Str) (stats stats' : StatsRecorder) : Prop where
  connections : stats'.snapshot.connections = stats.snapshot.connections
  rooms : stats'.snapshot.rooms = stats.snapshot.rooms
  perRoom : ∀ other, other ≠ roomId →
    stats'.snapshot.perRoom.lookup other = stats.snapshot.perRoom.lookup other

/-- A room after a frame was sent to its receivers, if it has any. -/
def sentTo (room : Room) (frame : Frame) : Room :=
  { room with tx := { room.tx with
    sent := room.tx.sent ++ if room.receiverCount = 0 then [] else [frame] } }

/-- A recorder after a frame was sent to the receivers of a room, if it has any. -/
def recordedTo (room : Room) (frame : Frame) (stats : StatsRecorder) : StatsRecorder :=
  if room.receiverCount = 0 then stats.recordRoomDrop room.id
  else stats.recordRoomMessageOut room.id (.ofNat room.receiverCount)
    (.ofNat frame.len * .ofNat room.receiverCount)

/-- A frame was sent to a room and recorded for it; nothing else changed. Every live receiver was
sent exactly this frame more. -/
structure Delivered (m m' : RoomManager) (ref : RoomRef) (room : Room) (frame : Frame) : Prop where
  rooms : m'.rooms = m.rooms
  defaultCapacity : m'.defaultCapacity = m.defaultCapacity
  others : ∀ ref', ref' ≠ ref → m'.room ref' = m.room ref'
  sent : m'.room ref = some (sentTo room frame)
  offered : ∀ rx offered, room.tx.sentSince rx = some offered →
    (sentTo room frame).tx.sentSince rx = some (offered ++ [frame])
  recorded : m'.stats = m.stats.map (recordedTo room frame)
  attributed : ∀ recorder, OnlyTraffic room.id recorder (recordedTo room frame recorder)

omit [ChannelApi Frame] in
/-- An update of a room's counters leaves those of other rooms alone. -/
theorem lookup_updateRoom_of_ne (stats : StatsRecorder) {roomId other : Str} (h : other ≠ roomId)
    (f : RoomCounters → RoomCounters) :
    (stats.updateRoom roomId f).rooms.lookup other = stats.rooms.lookup other :=
  AList.lookup_insert_ne h

/-- What a broadcast records is traffic of its room. -/
theorem onlyTraffic_recordedTo (room : Room) (frame : Frame) (stats : StatsRecorder) :
    OnlyTraffic room.id stats (recordedTo room frame stats) := by
  rw [recordedTo]
  split
  · exact ⟨rfl, rfl, fun other hother => lookup_updateRoom_of_ne stats hother
      fun counters => { counters with drops := counters.drops + 1 }⟩
  · exact ⟨rfl, rfl, fun other hother => lookup_updateRoom_of_ne stats hother fun counters =>
      { counters with
        messagesOut := counters.messagesOut + .ofNat room.receiverCount
        bytesOut := counters.bytesOut + .ofNat frame.len * .ofNat room.receiverCount }⟩

/-- A room with a live receiver sends it the frame. -/
theorem sentTo_of_live {room : Room} {rx : ReceiverId} (hlive : rx ∈ room.tx.receivers)
    (frame : Frame) :
    sentTo room frame = { room with tx := { room.tx with sent := room.tx.sent ++ [frame] } } := by
  have hreceivers : room.receiverCount ≠ 0 := Channel.receiverCount_ne_zero_of_mem hlive
  rw [sentTo, if_neg hreceivers]

/-- A live receiver is sent the frame. -/
theorem sentSince_sentTo {room : Room} (hvalid : room.tx.Valid) (frame : Frame) {rx : ReceiverId}
    {offered : List Frame} (hoffered : room.tx.sentSince rx = some offered) :
    (sentTo room frame).tx.sentSince rx = some (offered ++ [frame]) := by
  obtain ⟨start, hlookup, _⟩ := Option.map_eq_some_iff.1 hoffered
  rw [sentTo_of_live (Map.mem_iff_lookup.2 ⟨start, hlookup⟩)]
  exact hvalid.sentSince_append frame hoffered

/-- A broadcast sends to the room and records for it. -/
theorem broadcast_eq_sentTo (room : Room) (stats : Option StatsRecorder) (frame : Frame) :
    room.broadcast stats frame = (if room.receiverCount = 0 then .error (.failed .broadcastFull)
      else .ok room.receiverCount, sentTo room frame, stats.map (recordedTo room frame)) := by
  by_cases h : room.receiverCount = 0
  · have hrecorded : recordedTo room frame = fun stats => stats.recordRoomDrop room.id := by
      funext recorder
      rw [recordedTo, if_pos h]
    rw [Room.broadcast_of_receiverCount_eq_zero h, sentTo, if_pos h, if_pos h, List.append_nil,
      hrecorded]
  · have hrecorded : recordedTo room frame = fun stats => stats.recordRoomMessageOut room.id
        (.ofNat room.receiverCount) (.ofNat frame.len * .ofNat room.receiverCount) := by
      funext recorder
      rw [recordedTo, if_neg h]
    rw [Room.broadcast_of_receiverCount_ne_zero h, sentTo, if_neg h, if_neg h, hrecorded]

/-- A broadcast on a room of the heap is a delivery. -/
theorem broadcast_delivered {m : RoomManager} (hwell : m.WellFormed) {ref : RoomRef} {room : Room}
    (hroom : m.room ref = some room) (frame : Frame) :
    ∃ m', m.broadcast ref frame = some (if room.receiverCount = 0 then
        .error (.failed .broadcastFull) else .ok room.receiverCount, m') ∧
      Delivered m m' ref room frame := by
  refine ⟨{ m.modifyRoom ref fun _ => sentTo room frame with
    stats := m.stats.map (recordedTo room frame) }, ?_, ?_⟩
  · rw [RoomManager.broadcast, hroom, Option.map_some, broadcast_eq_sentTo]
  · refine ⟨rfl, rfl, fun ref' hne => ?_, ?_, fun rx offered hoffered =>
      sentSince_sentTo (hwell.channels ref room hroom) frame hoffered, rfl,
      onlyTraffic_recordedTo room frame⟩
    · exact (m.room_modifyRoom ref _ ref').trans (if_neg hne)
    · refine (m.room_modifyRoom ref _ ref).trans ((if_pos rfl).trans ?_)
      rw [hroom, Option.map_some]

/-! ### Runs of the registry -/

/-- Applying an envelope leaves a registry as it is, or is a broadcast on its local half. -/
theorem applyRemote_cases {reg reg' : RedisRoomRegistry} {roomId : Str} {envelope : Bytes}
    {result : Outcome WsError (Option ℕ)} (h : reg.applyRemote roomId envelope = some (result, reg')) :
    reg' = reg ∨ ∃ ref frame sent m', reg.localRooms.broadcast ref frame = some (sent, m') ∧
      reg' = { reg with localRooms := m' } := by
  rw [applyRemote_eq_locate] at h
  split at h
  · cases h
    exact .inl rfl
  · cases h
    exact .inl rfl
  · obtain ⟨⟨sent, m'⟩, hsent, heq⟩ := Option.map_eq_some_iff.1 h
    cases heq
    exact .inr ⟨_, _, sent, m', hsent, rfl⟩

/-- A message leaves a registry as it is, or is a broadcast on its local half. -/
theorem receive_cases (reg : RedisRoomRegistry) (channel : Str) (payload : Bytes) :
    reg.receive channel payload = reg ∨
      ∃ ref frame sent m', reg.localRooms.broadcast ref frame = some (sent, m') ∧
        reg.receive channel payload = { reg with localRooms := m' } := by
  rw [receive]
  cases reg.roomIdFromChannel channel with
  | none => exact .inl rfl
  | some roomId =>
    dsimp only
    cases happlied : reg.applyRemote roomId payload with
    | none => exact .inl rfl
    | some applied => exact applyRemote_cases happlied

/-- A broadcast keeps the local half well formed. -/
theorem wellFormed_broadcast {m m' : RoomManager} (hwell : m.WellFormed) {ref : RoomRef}
    {frame : Frame} {sent : Outcome WsError ℕ} (h : m.broadcast ref frame = some (sent, m')) :
    m'.WellFormed :=
  (hwell.refines_call (RoomManager.call_of_broadcast h)).wellFormed

/-- Every step keeps the local half well formed. -/
theorem wellFormed_step {reg reg' : RedisRoomRegistry} {e : Event} {out : List RoomResult}
    (hwell : reg.localRooms.WellFormed) (hstep : machine.step reg e = some (reg', out)) :
    reg'.localRooms.WellFormed := by
  cases e with
  | call op =>
    obtain ⟨⟨result, m'⟩, hcall, heq⟩ := Option.map_eq_some_iff.1 hstep
    cases heq
    exact (hwell.refines_call hcall).wellFormed
  | message channel payload =>
    cases hstep
    obtain hsame | ⟨ref, frame, sent, m', hsent, heq⟩ := receive_cases reg channel payload
    · rw [hsame]
      exact hwell
    · rw [heq]
      exact wellFormed_broadcast hwell hsent

/-- Every run keeps the local half well formed. -/
theorem wellFormed_of_run {defaultCapacity : ℕ} {stats : Option StatsRecorder} {channelPrefix : Str}
    {nodeId : NodeId} {es : List Event} {reg : RedisRoomRegistry} {tr : List RoomResult}
    (hrun : machine.run es (fromParts defaultCapacity stats channelPrefix nodeId, []) =
      some (reg, tr)) : reg.localRooms.WellFormed := by
  exact Machine.run_induct_all (P := fun reg _ => reg.localRooms.WellFormed)
    (fun _ _ _ _ _ hwell hstep => wellFormed_step hwell hstep) hrun
    (RoomManager.wellFormed_empty defaultCapacity stats)

/-- The rooms of a registry in use are well formed, and their receivers accounted for. -/
def Sound (s : InUse) : Prop :=
  s.registry.localRooms.WellFormed ∧ ∃ tr, RoomManager.Heard s.rooms tr

/-- A step of the registry is a call on its rooms, or leaves them as they are. -/
theorem heard_step {s : InUse} {reg' : RedisRoomRegistry} {e : Event} {out : List RoomResult}
    {tr : List RoomManager.Seen} (h : RoomManager.Heard s.rooms tr)
    (hstep : machine.step s.registry e = some (reg', out)) :
    ∃ tr', RoomManager.Heard (InUse.rooms { s with registry := reg' }) tr' := by
  have hcalled : ∀ op result m', s.registry.localRooms.call op = some (result, m') →
      ∃ tr', RoomManager.Heard ⟨m', s.passed⟩ tr' := by
    intro op result m' hcall
    have hused : RoomManager.listeners.step s.rooms (.call op) =
        some (⟨m', s.passed⟩, [.called op result]) := by
      simp only [RoomManager.listeners, InUse.rooms, hcall, Option.map_some]
    exact ⟨_, h.step hused⟩
  cases e with
  | call op =>
    obtain ⟨⟨result, m'⟩, hcall, heq⟩ := Option.map_eq_some_iff.1 hstep
    cases heq
    exact hcalled op result m' hcall
  | message channel payload =>
    cases hstep
    obtain hsame | ⟨ref, frame, sent, m', hsent, heq⟩ := receive_cases s.registry channel payload
    · rw [hsame]
      exact ⟨tr, h⟩
    · rw [heq]
      exact hcalled _ _ m' (RoomManager.call_of_broadcast hsent)

/-- Every step keeps a registry in use sound. -/
theorem Sound.step {s s' : InUse} (h : Sound s) {use : Use} {out : List Seen}
    (hstep : attended.step s use = some (s', out)) : Sound s' := by
  obtain ⟨hwell, tr, hheard⟩ := h
  cases use with
  | event e =>
    obtain ⟨⟨reg', results⟩, hnext, heq⟩ := Option.map_eq_some_iff.1 hstep
    cases heq
    exact ⟨wellFormed_step hwell hnext, heard_step hheard hnext⟩
  | recv ref rx =>
    obtain ⟨room, hroom, hread⟩ := Option.bind_eq_some_iff.1 hstep
    obtain ⟨⟨got, next⟩, hrecv, heq⟩ := Option.map_eq_some_iff.1 hread
    cases heq
    have hused : RoomManager.listeners.step s.rooms (.recv ref rx) =
        some (⟨s.registry.localRooms, Function.update s.passed ref next.passed⟩,
          [.received ref rx got]) := by
      simp only [RoomManager.listeners, InUse.rooms, hroom, Option.bind_some, hrecv,
        Option.map_some]
    exact ⟨hwell, _, hheard.step hused⟩

/-- So does every run. -/
theorem sound_of_run {defaultCapacity : ℕ} {stats : Option StatsRecorder} {channelPrefix : Str}
    {nodeId : NodeId} {uses : List Use} {s : InUse} {tr : List Seen}
    (hrun : attended.run uses (.start defaultCapacity stats channelPrefix nodeId, []) =
      some (s, tr)) : Sound s :=
  Machine.run_induct_all (P := fun s _ => Sound s) (fun _ _ _ _ _ h hstep => h.step hstep) hrun
    ⟨RoomManager.wellFormed_empty defaultCapacity stats, [],
      RoomManager.heard_start defaultCapacity stats⟩

/-! ### Messages that the loop might as well not have seen -/

/-- A message on a channel with the prefix, well formed, and another node's. -/
def matters (reg : RedisRoomRegistry) (message : Str × Bytes) : Bool :=
  (reg.roomIdFromChannel message.1).isSome &&
    match decodeEnvelope message.2 with
    | .ok (publisher, _) => publisher ≠ reg.nodeId
    | .error _ => false

/-- Any other message leaves the registry as it is. -/
theorem receive_of_not_matters {reg : RedisRoomRegistry} {message : Str × Bytes}
    (h : reg.matters message = false) : reg.receive message.1 message.2 = reg := by
  rw [receive]
  cases hchannel : reg.roomIdFromChannel message.1 with
  | none => rfl
  | some roomId =>
    simp only [matters, hchannel, Option.isSome_some, Bool.true_and] at h
    cases hdecode : decodeEnvelope message.2 with
    | error fault => simp only [applyRemote, hdecode, Option.elim_some]
    | ok decoded =>
      obtain ⟨publisher, frame⟩ := decoded
      simp only [hdecode, decide_eq_false_iff_not, not_not] at h
      simp only [applyRemote, hdecode, if_pos h, Option.elim_some]

/-- What matters to the loop does not change while it runs. -/
theorem matters_receive (reg : RedisRoomRegistry) (channel : Str) (payload : Bytes) :
    (reg.receive channel payload).matters = reg.matters := by
  obtain hsame | ⟨ref, frame, sent, m', -, heq⟩ := receive_cases reg channel payload
  · rw [hsame]
  · rw [heq]
    rfl

/-- The loop does the same when it sees only the messages that matter. -/
theorem runSubscriber_filter (reg : RedisRoomRegistry) (messages : List (Str × Bytes)) :
    reg.runSubscriber messages = reg.runSubscriber (messages.filter reg.matters) := by
  induction messages generalizing reg with
  | nil => rfl
  | cons message messages ih =>
    have hrest := ih (reg.receive message.1 message.2)
    rw [matters_receive] at hrest
    by_cases hmatters : reg.matters message = true
    · rw [List.filter_cons_of_pos hmatters]
      exact hrest
    · have hsame := receive_of_not_matters (Bool.eq_false_of_not_eq_true hmatters)
      rw [List.filter_cons_of_neg hmatters]
      rw [hsame] at hrest
      rw [← hrest, runSubscriber, List.foldl_cons, hsame, runSubscriber]

/-- A room without what was sent to it: its identity, its roster and its receivers. -/
def shell (room : Room) : Room := { room with tx := { room.tx with sent := [] } }

/-- A delivery leaves every room's shell alone. -/
theorem Delivered.shell_eq {m m' : RoomManager} {ref : RoomRef} {room : Room} {frame : Frame}
    (h : Delivered m m' ref room frame) (hroom : m.room ref = some room) (ref' : RoomRef) :
    (m'.room ref').map shell = (m.room ref').map shell := by
  by_cases heq : ref' = ref
  · rw [heq, h.sent, hroom]
    rfl
  · rw [h.others ref' heq]

/-- An envelope of another node for a hosted room is delivered to it. -/
theorem applyRemote_delivers {reg : RedisRoomRegistry} (hwell : reg.localRooms.WellFormed)
    {roomId : Str} {envelope : Bytes} {publisher : NodeId} {frame : Frame} {ref : RoomRef}
    (h : decodeEnvelope envelope = .ok (publisher, frame)) (hother : publisher ≠ reg.nodeId)
    (hget : reg.localRooms.get roomId = some ref) :
    ∃ room m', reg.localRooms.room ref = some room ∧ room.id = roomId ∧
      reg.applyRemote roomId envelope =
        some (.ok (if room.receiverCount = 0 then none else some room.receiverCount),
          { reg with localRooms := m' }) ∧
      Delivered reg.localRooms m' ref room frame := by
  obtain ⟨room, hroom, hid⟩ := hwell.mapped roomId ref hget
  obtain ⟨m', hsent, hdelivered⟩ := broadcast_delivered hwell hroom frame
  refine ⟨room, m', hroom, hid, ?_, hdelivered⟩
  rw [applyRemote_of_hosted h hother hget, hsent, Option.map_some]
  split <;> rfl

/-- Applying an envelope leaves the hosted rooms and every room's shell alone. -/
theorem applyRemote_keeps {reg : RedisRoomRegistry} (hwell : reg.localRooms.WellFormed)
    (roomId : Str) (envelope : Bytes) :
    ∃ result reg', reg.applyRemote roomId envelope = some (result, reg') ∧
      reg'.channelPrefix = reg.channelPrefix ∧ reg'.nodeId = reg.nodeId ∧
      reg'.localRooms.rooms = reg.localRooms.rooms ∧
      ∀ ref, (reg'.localRooms.room ref).map shell = (reg.localRooms.room ref).map shell := by
  cases hdecode : decodeEnvelope envelope with
  | error fault =>
    exact ⟨.error fault, reg, by simp only [applyRemote, hdecode], rfl, rfl, rfl, fun _ => rfl⟩
  | ok decoded =>
    obtain ⟨publisher, frame⟩ := decoded
    by_cases hself : publisher = reg.nodeId
    · subst hself
      exact ⟨_, reg, applyRemote_of_echo hdecode roomId, rfl, rfl, rfl, fun _ => rfl⟩
    · cases hget : reg.localRooms.get roomId with
      | none => exact ⟨_, reg, applyRemote_of_unhosted hdecode hget, rfl, rfl, rfl, fun _ => rfl⟩
      | some ref =>
        obtain ⟨room, m', hroom, -, happlied, hdelivered⟩ :=
          applyRemote_delivers hwell hdecode hself hget
        exact ⟨_, _, happlied, rfl, rfl, hdelivered.rooms, hdelivered.shell_eq hroom⟩

/-- What a delivery does to the queues of the receivers: the frame goes behind what the live
receivers of the room have queued, and pushes the oldest frame out of a full queue. -/
structure Queued (s s' : InUse) (ref : RoomRef) (room : Room) (frame : Frame) : Prop where
  others : ∀ ref' rx, ref' ≠ ref ∨ rx ∉ room.tx.receivers → s'.queue ref' rx = s.queue ref' rx
  capacity_le : room.tx.capacity ≤ ChannelApi.held Frame room.tx.capacity
  delivered : ∀ rx ∈ room.tx.receivers, s'.queue ref rx =
    if (s.queue ref rx).length < ChannelApi.held Frame room.tx.capacity
    then s.queue ref rx ++ [frame] else (s.queue ref rx ++ [frame]).tail

/-- A room's queues, by what is behind its handle. -/
theorem queue_eq {s : InUse} {ref : RoomRef} {room : Room}
    (hroom : s.registry.localRooms.room ref = some room) (rx : ReceiverId) :
    s.queue ref rx = Listening.queue ⟨room.tx, s.passed ref⟩ rx := by
  rw [InUse.queue, hroom, Option.elim_some]

/-- Nothing is queued for a receiver that is not live. -/
theorem queue_of_notMem {tx : Channel Frame} {passed : ReceiverId → ℕ} {rx : ReceiverId}
    (h : rx ∉ tx.receivers) : Listening.queue ⟨tx, passed⟩ rx = [] := by
  rw [Channel.mem_receivers_iff, Bool.not_eq_true, Option.isSome_eq_false_iff,
    Option.isNone_iff_eq_none] at h
  rw [Listening.queue, Listening.unread, h, Option.getD_none, List.drop_nil, List.rtake_nil]

/-- A delivery queues the frame. -/
theorem Sound.queued {s : InUse} (h : Sound s) {m' : RoomManager} {ref : RoomRef} {room : Room}
    {frame : Frame} (hroom : s.registry.localRooms.room ref = some room)
    (hdelivered : Delivered s.registry.localRooms m' ref room frame) :
    Queued s { s with registry := { s.registry with localRooms := m' } } ref room frame := by
  obtain ⟨-, tr, hheard⟩ := h
  refine ⟨fun ref' rx hother => ?_, ChannelApi.le_held _, fun rx hlive => ?_⟩
  · by_cases href : ref' = ref
    · obtain hne | hdead := hother
      · exact (hne href).elim
      · have hdead' : rx ∉ (sentTo room frame).tx.receivers := hdead
        rw [href, queue_eq hroom, queue_eq hdelivered.sent, queue_of_notMem hdead,
          queue_of_notMem hdead']
    · exact congrArg (Option.elim · [] _) (hdelivered.others ref' href)
  · rw [queue_eq hroom, queue_eq hdelivered.sent, sentTo_of_live hlive]
    exact (hheard.accounted ref room hroom).queue_send frame hlive

/-- In every reachable registry, whatever its receivers have read, applying any bytes for any room id
leaves the hosted rooms, their ids, rosters and receivers alone. Bytes that do not decode are
refused, and the node's own echoes and rooms that are not hosted ignored, without any effect.
Otherwise the frame is sent to the named room and its traffic recorded: each of its receivers has
exactly this frame more in its queue, unless the queue is full and its oldest frame is pushed out. So
the subscriber loop does the same when every malformed message, every echo and every message on
another channel is left out. -/
theorem applyRemote_only_delivers {defaultCapacity : ℕ} {stats : Option StatsRecorder}
    {channelPrefix : Str} {nodeId : NodeId} {uses : List Use} {s : InUse} {tr : List Seen}
    (hrun : attended.run uses (.start defaultCapacity stats channelPrefix nodeId, []) =
      some (s, tr)) :
    (∀ roomId envelope, ∃ result reg',
      s.registry.applyRemote roomId envelope = some (result, reg') ∧
      reg'.channelPrefix = s.registry.channelPrefix ∧ reg'.nodeId = s.registry.nodeId ∧
      reg'.localRooms.rooms = s.registry.localRooms.rooms ∧
      ∀ ref, (reg'.localRooms.room ref).map shell = (s.registry.localRooms.room ref).map shell) ∧
    (∀ roomId envelope, (∀ decoded, decodeEnvelope envelope ≠ .ok decoded) →
      s.registry.applyRemote roomId envelope =
        some (.error (.failed .invalidMessage), s.registry)) ∧
    (∀ roomId envelope publisher frame, decodeEnvelope envelope = .ok (publisher, frame) →
      publisher = s.registry.nodeId ∨ s.registry.localRooms.get roomId = none →
      s.registry.applyRemote roomId envelope = some (.ok none, s.registry)) ∧
    (∀ roomId envelope publisher frame ref, decodeEnvelope envelope = .ok (publisher, frame) →
      publisher ≠ s.registry.nodeId → s.registry.localRooms.get roomId = some ref →
      ∃ room m', s.registry.localRooms.room ref = some room ∧ room.id = roomId ∧
        s.registry.applyRemote roomId envelope =
          some (.ok (if room.receiverCount = 0 then none else some room.receiverCount),
            { s.registry with localRooms := m' }) ∧
        Delivered s.registry.localRooms m' ref room frame ∧
        Queued s { s with registry := { s.registry with localRooms := m' } } ref room frame) ∧
    ∀ messages, s.registry.runSubscriber messages =
      s.registry.runSubscriber (messages.filter s.registry.matters) := by
  have hsound := sound_of_run hrun
  refine ⟨applyRemote_keeps hsound.1, ?_, ?_, ?_, runSubscriber_filter s.registry⟩
  · intro roomId envelope hnone
    apply applyRemote_of_malformed
    intro hformed
    obtain ⟨publisher, frame, hdecode⟩ := exists_decodeEnvelope_iff.2 hformed
    exact hnone (publisher, frame) hdecode
  · rintro roomId envelope publisher frame hdecode (hself | hget)
    · rw [hself] at hdecode
      exact applyRemote_of_echo hdecode roomId
    · exact applyRemote_of_unhosted hdecode hget
  · intro roomId envelope publisher frame ref hdecode hother hget
    obtain ⟨room, m', hroom, hid, happlied, hdelivered⟩ :=
      applyRemote_delivers hsound.1 hdecode hother hget
    exact ⟨room, m', hroom, hid, happlied, hdelivered, hsound.queued hroom hdelivered⟩

end AnyChannel

/-- A node that hosts the lobby with one receiver, which has read a frame. -/
def hostedLobby : List Use :=
  [.event (.call (.getOrCreate ['l'])), .event (.call (.subscribe 0)),
    .event (.call (.broadcast 0 (.binary [7]))), .recv 0 0]

/-- Another node's greeting reaches the lobby. -/
theorem applyRemote_only_delivers_hostedLobby : ∃ s tr room m',
    attended.run hostedLobby (.start 16 none ['p', ':'] ⟨List.replicate 16 1, rfl⟩, []) =
      some (s, tr) ∧
    s.registry.applyRemote ['l'] (encodeEnvelope ⟨List.replicate 16 2, rfl⟩ (.text ['h', 'i'])) =
      some (.ok (if room.receiverCount = 0 then none else some room.receiverCount),
        { s.registry with localRooms := m' }) ∧
    Queued s { s with registry := { s.registry with localRooms := m' } } 0 room
      (.text ['h', 'i']) := by
  have hseen : (attended.run hostedLobby
      (.start 16 none ['p', ':'] ⟨List.replicate 16 1, rfl⟩, [])).map
      (fun c => (c.1.registry.nodeId, c.1.registry.localRooms.get ['l'])) =
        some (⟨List.replicate 16 1, rfl⟩, some 0) := by decide
  obtain ⟨⟨s, tr⟩, hrun, heq⟩ := Option.map_eq_some_iff.1 hseen
  obtain ⟨hnode, hget⟩ := Prod.mk.inj heq
  have hother : (⟨List.replicate 16 2, rfl⟩ : NodeId) ≠ s.registry.nodeId := by
    rw [hnode]
    decide
  obtain ⟨room, m', -, -, happlied, -, hqueued⟩ :=
    (applyRemote_only_delivers hrun).2.2.2.1 ['l'] _ _ (.text ['h', 'i']) 0
      (decodeEnvelope_encodeEnvelope _ _) hother hget
  exact ⟨s, tr, room, m', hrun, happlied, hqueued⟩

/-- A node whose lobby holds one frame, which its receiver has not read. -/
def fullLobby : List Use :=
  [.event (.call (.getOrCreateWithCapacity ['l'] 1)), .event (.call (.subscribe 0)),
    .event (.call (.broadcast 0 (.binary [7])))]

/-- Another node's greeting pushes that frame out, so the receiver has as many as before. -/
theorem fullLobby_pushedOut :
    ¬ ∀ (uses : List Use) (s : InUse) (tr : List Seen),
      attended.run uses (.start 16 none ['p', ':'] ⟨List.replicate 16 1, rfl⟩, []) =
        some (s, tr) →
      ∀ roomId envelope publisher frame ref room result reg',
        decodeEnvelope envelope = .ok (publisher, frame) → publisher ≠ s.registry.nodeId →
        s.registry.localRooms.get roomId = some ref →
        s.registry.localRooms.room ref = some room →
        s.registry.applyRemote roomId envelope = some (result, reg') →
        ∀ rx ∈ room.tx.receivers,
          InUse.queue { s with registry := reg' } ref rx = s.queue ref rx ++ [frame] := by
  intro h
  have hseen : (attended.run fullLobby
      (.start 16 none ['p', ':'] ⟨List.replicate 16 1, rfl⟩, [])).bind
      (fun c => (c.1.registry.localRooms.room 0).bind fun room =>
        (c.1.registry.applyRemote ['l']
          (encodeEnvelope ⟨List.replicate 16 2, rfl⟩ (.text ['h', 'i']))).map fun applied =>
          ((c.1.registry.nodeId, c.1.registry.localRooms.get ['l'], decide (0 ∈ room.tx.receivers)),
            c.1.queue 0 0, InUse.queue { c.1 with registry := applied.2 } 0 0)) =
        some ((⟨List.replicate 16 1, rfl⟩, some 0, true), [.binary [7]], [.text ['h', 'i']]) := by
    decide
  obtain ⟨⟨s, tr⟩, hrun, hseen⟩ := Option.bind_eq_some_iff.1 hseen
  obtain ⟨room, hroom, hseen⟩ := Option.bind_eq_some_iff.1 hseen
  obtain ⟨⟨result, reg'⟩, happlied, hseen⟩ := Option.map_eq_some_iff.1 hseen
  obtain ⟨hhosted, hqueues⟩ := Prod.mk.inj hseen
  obtain ⟨hnode, hhosted⟩ := Prod.mk.inj hhosted
  obtain ⟨hget, hlive⟩ := Prod.mk.inj hhosted
  obtain ⟨hbefore, hafter⟩ := Prod.mk.inj hqueues
  have hother : (⟨List.replicate 16 2, rfl⟩ : NodeId) ≠ s.registry.nodeId := by
    rw [hnode]
    decide
  have hmore := h fullLobby s tr hrun ['l'] _ _ (.text ['h', 'i']) 0 room result reg'
    (decodeEnvelope_encodeEnvelope _ _) hother hget hroom happlied 0 (of_decide_eq_true hlive)
  rw [hbefore, hafter] at hmore
  exact absurd hmore (by decide)

end RedisRoomRegistry

end WsKit
