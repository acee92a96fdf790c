import WsKit.Cluster

/-!
# What a safe fan-out is

Every frame sent to the receivers of a room is accounted for by one delivery, of a broadcast
made on the node or of a message that a peer published to the room's id and that was handed
to the node while it hosted the room. A broadcast is delivered once locally, and a message
once on each node that it is handed to, in the order of publication.
-/

namespace WsKit.Cluster

open Base

variable {ν : Type*} [DecidableEq ν]

/-! ### Readings of a trace -/

/-- A frame delivered to a room while it had receivers. -/
def Obs.push (x : ν) (ref : RoomRef) : Obs ν → Option Frame
  | .delivered y ref' frame _ receivers =>
    if y = x ∧ ref' = ref ∧ receivers ≠ 0 then some frame else none
  | .handed _ _ _ => none

/-- A message handed to a node. -/
def Obs.handedTo (x : ν) : Obs ν → Option (Message ν)
  | .handed y m _ => if y = x then some m else none
  | .delivered _ _ _ _ _ => none

/-- A delivery that is due: a peer's message, handed to a node that hosts the room. -/
def Obs.due (x : ν) : Obs ν → Option (Message ν × RoomRef × Frame)
  | .handed y m (some ref) =>
    if y = x ∧ m.source.node ≠ x then some (m, ref, m.source.frame) else none
  | _ => none

/-- A delivery of a message. -/
def Obs.arrival (x : ν) : Obs ν → Option (Message ν × RoomRef × Frame)
  | .delivered y ref frame (.message m) _ => if y = x then some (m, ref, frame) else none
  | _ => none

/-- A frame of a node's broadcast to a room id, delivered as a message while the room had
receivers. -/
def Obs.pushFrom (x y : ν) (roomId : Str) : Obs ν → Option Frame
  | .delivered x' _ frame (.message m) receivers =>
    if x' = x ∧ receivers ≠ 0 ∧ m.source.node = y ∧ m.source.roomId = roomId then some frame
    else none
  | _ => none

omit [DecidableEq ν] in
/-- A delivery of a broadcast to the local room. -/
def Obs.isLocal (k : ℕ) : Obs ν → Bool
  | .delivered _ _ _ (.task k') _ => k' = k
  | _ => false

/-- The frames delivered to a room while it had receivers. -/
def pushes (tr : List (Obs ν)) (x : ν) (ref : RoomRef) : List Frame := tr.filterMap (Obs.push x ref)

/-- The messages handed to a node. -/
def handed (tr : List (Obs ν)) (x : ν) : List (Message ν) := tr.filterMap (Obs.handedTo x)

/-- The deliveries that handed messages make due on a node. -/
def due (tr : List (Obs ν)) (x : ν) : List (Message ν × RoomRef × Frame) := tr.filterMap (Obs.due x)

/-- The deliveries of messages on a node. -/
def arrivals (tr : List (Obs ν)) (x : ν) : List (Message ν × RoomRef × Frame) :=
  tr.filterMap (Obs.arrival x)

/-- The frames of a node's broadcasts to a room id, sent to receivers on another node. -/
def pushesFrom (tr : List (Obs ν)) (x y : ν) (roomId : Str) : List Frame :=
  tr.filterMap (Obs.pushFrom x y roomId)

omit [DecidableEq ν] in
/-- The number of local deliveries of a broadcast. -/
def deliveries (tr : List (Obs ν)) (k : ℕ) : ℕ := tr.countP (Obs.isLocal k)

/-- The frames that a node has published to a room id. -/
def State.publishedBy (s : State ν) (y : ν) (roomId : Str) : List Frame :=
  (s.redis.published.filter fun m => m.source.node = y ∧ m.source.roomId = roomId).map
    fun m => m.source.frame

omit [DecidableEq ν]

/-- Whether a broadcast has been delivered locally, as a number. -/
def Phase.deliveries : Phase → ℕ
  | .entering => 0
  | .delivering _ => 0
  | .publishing _ => 1
  | .returned result => if result = .error .panicked then 0 else 1

/-- How often a broadcast has to have been delivered locally. -/
def State.delivered (s : State ν) (k : ℕ) : ℕ :=
  (s.tasks[k]?).elim 0 fun task => task.phase.deliveries

/-- The delivery that a loop is about to make. -/
def Loop.pending : Loop ν → List (Message ν × RoomRef × Frame)
  | .waiting => []
  | .applying m ref frame => [(m, ref, frame)]

/-- The broadcast behind a delivery. -/
def State.sourceOf (s : State ν) : Origin ν → Option (Broadcast ν)
  | .task k => (s.tasks[k]?).map Task.source
  | .message m => some m.source

/-- A room is at a position of the heap under an id. -/
def RoomAt (m : RoomManager) (ref : RoomRef) (roomId : Str) : Prop :=
  ∃ room, m.room ref = some room ∧ room.id = roomId

/-- A delivery is to a room with the id, and of the frame, that the broadcast behind it names; a
local delivery is on the broadcast's node. -/
def State.Justifies (s : State ν) (x : ν) (ref : RoomRef) (frame : Frame) (origin : Origin ν) :
    Prop :=
  ∃ source, s.sourceOf origin = some source ∧ frame = source.frame ∧
    RoomAt (s.manager x) ref source.roomId ∧ ∀ k, origin = .task k → source.node = x

/-- A message carries, on the channel of its room, the envelope of a broadcast that has
returned. -/
structure Genuine (fleet : Fleet ν) (s : State ν) (m : Message ν) : Prop where
  returned : ∃ result, s.tasks[m.task]? = some ⟨m.source, .returned result⟩
  channel : m.channel = fleet.channelPrefix ++ m.source.roomId
  payload : m.payload = encodeEnvelope (fleet.nodeId m.source.node) m.source.frame

/-- The node on which an event may change which rooms are hosted: that of a local call, or of a
broadcast that asks for its local room. -/
def Event.rehosts (s : State ν) : Event ν → Option ν
  | .use x _ => some x
  | .enter k => (s.tasks[k]?).map fun task => task.source.node
  | _ => none

/-- The safety of a run that ends in a state after a trace. -/
structure SafeFanOut [DecidableEq ν] (fleet : Fleet ν) (s : State ν) (tr : List (Obs ν)) : Prop where
  /-- Receivers were sent what was delivered to their room while it had receivers. -/
  pushed : ∀ x ref room, (s.manager x).room ref = some room → room.tx.sent = pushes tr x ref
  /-- Every delivery is to the right room, with the right frame, for its broadcast. -/
  justified : ∀ x ref frame origin receivers,
    Obs.delivered x ref frame origin receivers ∈ tr → s.Justifies x ref frame origin
  /-- A broadcast is delivered locally once, when it gets there. -/
  oncePerBroadcast : ∀ k, deliveries tr k = s.delivered k
  /-- The deliveries of messages are those of peers' messages handed to the node while it hosted
  the room, once each and in order; the last one may not have been made yet. -/
  oncePerMessage : ∀ x, arrivals tr x ++ (s.loop x).pending = due tr x
  /-- No message is handed to a node twice. -/
  handedOnce : ∀ x, (handed tr x).Nodup
  /-- Messages handed to a node were published. -/
  handedPublished : ∀ x, (handed tr x).Sublist s.redis.published
  /-- Messages come from broadcasts, at most one from each. -/
  genuine : ∀ m ∈ s.redis.published, Genuine fleet s m
  distinct : (s.redis.published.map Message.task).Nodup
  /-- What receivers on one node are sent of another's broadcasts to a room id is in the order in
  which that node published it. -/
  ordered : ∀ x y roomId, (pushesFrom tr x y roomId).Sublist (s.publishedBy y roomId)

end WsKit.Cluster
