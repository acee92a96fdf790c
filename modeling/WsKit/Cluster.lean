import WsKit.Base.Broker
import WsKit.RedisRooms
import WsKit.RoomFrame

/-!
# A fleet of nodes on one Redis

Every node has a registry and one subscriber loop. Broadcasts run as tasks: a task asks for
the local room, sends to it, and publishes, and other tasks, the loop and local callers may
act in between. Redis hands each subscriber what was published on channels that match its
pattern, in order and at most once; any message may be lost, and a publish that fails may
have reached Redis or not. A loop takes one message at a time: it locates the room, and
sends to it in a second step.
-/

namespace WsKit.Cluster

open Base

variable [ChannelApi Frame]

/-- What the nodes `ν` share and what tells them apart; `matched` is Redis' matching of a
pattern with a channel name. -/
structure Fleet (ν : Type*) where
  channelPrefix : Str
  nodeId : ν → NodeId
  matched : Str → Str → Bool

/-- A call of `broadcast` on a node. -/
structure Broadcast (ν : Type*) where
  node : ν
  roomId : Str
  frame : Frame
  deriving DecidableEq

/-- Where a broadcast stands: before it has the room, before it sends, before it publishes, or
returned. -/
inductive Phase where
  | entering
  | delivering (ref : RoomRef)
  | publishing (delivered : ℕ)
  | returned (result : Outcome WsError ℕ)
  deriving DecidableEq

/-- A broadcast task. -/
structure Task (ν : Type*) where
  source : Broadcast ν
  phase : Phase

/-- A message on Redis. Only the channel and the payload are on the wire; the broadcast that
published it is remembered for what is proved of it. -/
structure Message (ν : Type*) where
  task : ℕ
  source : Broadcast ν
  channel : Str
  payload : Bytes
  deriving DecidableEq

/-- A subscriber loop waits for a message or is about to send one to a room. -/
inductive Loop (ν : Type*) where
  | waiting
  | applying (message : Message ν) (ref : RoomRef) (frame : Frame)

/-- The nodes' rooms and subscriber loops, all broadcasts so far, and Redis. -/
structure State (ν : Type*) where
  manager : ν → RoomManager
  tasks : List (Task ν)
  redis : Broker ν (Message ν)
  loop : ν → Loop ν

/-- How a publish ends: a failed one may have reached Redis. -/
inductive PublishEnd where
  | ok
  | failed (reached : Bool) (message : Str)

/-- Local calls, the steps of broadcasts, what Redis loses and hands over, and what a loop
sends. -/
inductive Event (ν : Type*) where
  | use (x : ν) (op : RoomOp)
  | broadcast (source : Broadcast ν)
  | enter (k : ℕ)
  | deliver (k : ℕ)
  | publish (k : ℕ) (outcome : PublishEnd)
  | lose (x : ν) (i : ℕ)
  | receive (x : ν)
  | apply (x : ν)

/-- Why a frame is sent to a room: a broadcast on the node, or a message. -/
inductive Origin (ν : Type*) where
  | task (k : ℕ)
  | message (m : Message ν)
  deriving DecidableEq

/-- What is seen: a message handed to a node, with the room that the node hosts under the
broadcast's id at that moment, and a frame delivered to a room with so many receivers. -/
inductive Obs (ν : Type*) where
  | handed (x : ν) (m : Message ν) (hosted : Option RoomRef)
  | delivered (x : ν) (ref : RoomRef) (frame : Frame) (origin : Origin ν) (receivers : ℕ)
  deriving DecidableEq

/-- Whether the publish reached Redis. -/
def PublishEnd.reached : PublishEnd → Bool
  | .ok => true
  | .failed reached _ => reached

/-- What the broadcast returns after its publish. -/
def PublishEnd.result (delivered : ℕ) : PublishEnd → Outcome WsError ℕ
  | .ok => .ok delivered
  | .failed _ message => .error (.failed (.redis message))

/-- Where a broadcast stands after it has sent to the local room. -/
def Phase.afterLocal (result : Outcome WsError ℕ) : Phase :=
  match RedisRoomRegistry.localCount result with
  | .ok n => .publishing n
  | .error e => .returned (.error e)

variable {ν : Type*}

/-- A loop after it has located the room for a message. -/
def Loop.after (message : Message ν) : Option (RoomRef × Frame) → Loop ν
  | some (ref, frame) => .applying message ref frame
  | none => .waiting

/-- The registry of a node. -/
def Fleet.registry (fleet : Fleet ν) (s : State ν) (x : ν) : RedisRoomRegistry :=
  ⟨s.manager x, fleet.channelPrefix, fleet.nodeId x⟩

/-- The message that a broadcast publishes. -/
def Fleet.message (fleet : Fleet ν) (s : State ν) (k : ℕ) (source : Broadcast ν) : Message ν :=
  let command := (fleet.registry s source.node).publishCommand source.frame source.roomId
  ⟨k, source, command.1, command.2⟩

/-- Managers with no broadcast made and nothing published. -/
def start (manager : ν → RoomManager) : State ν := ⟨manager, [], .empty, fun _ => .waiting⟩

namespace State

/-- A broadcast moves on. -/
def setPhase (s : State ν) (k : ℕ) (phase : Phase) : State ν :=
  { s with tasks := s.tasks.modify k fun task => { task with phase } }

/-- A broadcast's message reaches Redis. -/
def send (s : State ν) (fleet : Fleet ν) (k : ℕ) (source : Broadcast ν) : State ν :=
  let message := fleet.message s k source
  { s with redis :=
      s.redis.publish (fun x => fleet.matched (fleet.registry s x).pattern message.channel) message }

variable [DecidableEq ν]

/-- A node's manager changes. -/
def withManager (s : State ν) (x : ν) (m : RoomManager) : State ν :=
  { s with manager := Function.update s.manager x m }

/-- A loop moves on. -/
def withLoop (s : State ν) (x : ν) (loop : Loop ν) : State ν :=
  { s with loop := Function.update s.loop x loop }

end State

variable [DecidableEq ν]

/-- A broadcast asks for the local room. -/
def enter (s : State ν) (k : ℕ) (source : Broadcast ν) : State ν :=
  match (s.manager source.node).getOrCreate source.roomId with
  | some (ref, m) => (s.withManager source.node m).setPhase k (.delivering ref)
  | none => s.setPhase k (.returned (.error .panicked))

/-- A broadcast sends to the local room. -/
def deliver (s : State ν) (k : ℕ) (source : Broadcast ν) (ref : RoomRef) :
    Option (State ν × List (Obs ν)) :=
  ((s.manager source.node).broadcast ref source.frame).map fun sent =>
    ((s.withManager source.node sent.2).setPhase k (.afterLocal sent.1),
      [.delivered source.node ref source.frame (.task k) ((s.manager source.node).receivers ref)])

/-- A broadcast publishes. -/
def publish (fleet : Fleet ν) (s : State ν) (k : ℕ) (source : Broadcast ν) (delivered : ℕ)
    (outcome : PublishEnd) : State ν :=
  (if outcome.reached then s.send fleet k source else s).setPhase k
    (.returned (outcome.result delivered))

/-- A loop takes the next message and locates its room. -/
def receive (fleet : Fleet ν) (s : State ν) (x : ν) : Option (State ν × List (Obs ν)) :=
  (s.redis.hand x).map fun handed =>
    let found := (fleet.registry s x).onMessage handed.1.channel handed.1.payload
    ({ s.withLoop x (.after handed.1 found) with redis := handed.2 },
      [.handed x handed.1 ((s.manager x).get handed.1.source.roomId)])

/-- A loop sends a message to the room it has located. -/
def apply (s : State ν) (x : ν) (message : Message ν) (ref : RoomRef) (frame : Frame) :
    Option (State ν × List (Obs ν)) :=
  ((s.manager x).broadcast ref frame).map fun sent =>
    ((s.withManager x sent.2).withLoop x .waiting,
      [.delivered x ref frame (.message message) ((s.manager x).receivers ref)])

/-- Take an event; local callers do not send to rooms behind the registry's back. -/
def step (fleet : Fleet ν) (s : State ν) : Event ν → Option (State ν × List (Obs ν))
  | .use x op =>
    if op.sends then none
    else ((s.manager x).call op).map fun called => (s.withManager x called.2, [])
  | .broadcast source => some ({ s with tasks := s.tasks ++ [⟨source, .entering⟩] }, [])
  | .enter k =>
    match s.tasks[k]? with
    | some ⟨source, .entering⟩ => some (enter s k source, [])
    | _ => none
  | .deliver k =>
    match s.tasks[k]? with
    | some ⟨source, .delivering ref⟩ => deliver s k source ref
    | _ => none
  | .publish k outcome =>
    match s.tasks[k]? with
    | some ⟨source, .publishing delivered⟩ => some (publish fleet s k source delivered outcome, [])
    | _ => none
  | .lose x i => some ({ s with redis := s.redis.lose x i }, [])
  | .receive x =>
    match s.loop x with
    | .waiting => receive fleet s x
    | .applying _ _ _ => none
  | .apply x =>
    match s.loop x with
    | .applying message ref frame => apply s x message ref frame
    | .waiting => none

/-- The fleet as a machine. -/
def machine (fleet : Fleet ν) : Machine (State ν) (Event ν) (Obs ν) := ⟨step fleet⟩

/-! ### The steps, one by one -/

/-- What each event does where it can happen. -/
inductive Step (fleet : Fleet ν) (s : State ν) : Event ν → State ν → List (Obs ν) → Prop
  | use {x : ν} {op : RoomOp} {result : RoomResult} {m : RoomManager} (hop : op.sends = false)
      (hcall : (s.manager x).call op = some (result, m)) :
      Step fleet s (.use x op) (s.withManager x m) []
  | broadcast (source : Broadcast ν) :
      Step fleet s (.broadcast source) { s with tasks := s.tasks ++ [⟨source, .entering⟩] } []
  | enter {k : ℕ} {source : Broadcast ν} {ref : RoomRef} {m : RoomManager}
      (htask : s.tasks[k]? = some ⟨source, .entering⟩)
      (hcall : (s.manager source.node).call (.getOrCreate source.roomId) = some (.room ref, m)) :
      Step fleet s (.enter k) ((s.withManager source.node m).setPhase k (.delivering ref)) []
  | panic {k : ℕ} {source : Broadcast ν} (htask : s.tasks[k]? = some ⟨source, .entering⟩) :
      Step fleet s (.enter k) (s.setPhase k (.returned (.error .panicked))) []
  | deliver {k : ℕ} {source : Broadcast ν} {ref : RoomRef} {result : Outcome WsError ℕ}
      {m : RoomManager} (htask : s.tasks[k]? = some ⟨source, .delivering ref⟩)
      (hsent : (s.manager source.node).broadcast ref source.frame = some (result, m)) :
      Step fleet s (.deliver k)
        ((s.withManager source.node m).setPhase k
          (.publishing ((s.manager source.node).receivers ref)))
        [.delivered source.node ref source.frame (.task k) ((s.manager source.node).receivers ref)]
  | publish {k : ℕ} {source : Broadcast ν} {delivered : ℕ} {outcome : PublishEnd}
      (htask : s.tasks[k]? = some ⟨source, .publishing delivered⟩)
      (hreached : outcome.reached = true) :
      Step fleet s (.publish k outcome)
        ((s.send fleet k source).setPhase k (.returned (outcome.result delivered))) []
  | publishLost {k : ℕ} {source : Broadcast ν} {delivered : ℕ} {outcome : PublishEnd}
      (htask : s.tasks[k]? = some ⟨source, .publishing delivered⟩)
      (hreached : outcome.reached = false) :
      Step fleet s (.publish k outcome) (s.setPhase k (.returned (outcome.result delivered))) []
  | lose (x : ν) (i : ℕ) : Step fleet s (.lose x i) { s with redis := s.redis.lose x i } []
  | receive {x : ν} {message : Message ν} {redis : Broker ν (Message ν)}
      (hloop : s.loop x = .waiting) (hhand : s.redis.hand x = some (message, redis)) :
      Step fleet s (.receive x)
        { s.withLoop x (.after message
            ((fleet.registry s x).onMessage message.channel message.payload)) with redis }
        [.handed x message ((s.manager x).get message.source.roomId)]
  | apply {x : ν} {message : Message ν} {ref : RoomRef} {frame : Frame}
      {result : Outcome WsError ℕ} {m : RoomManager}
      (hloop : s.loop x = .applying message ref frame)
      (hsent : (s.manager x).broadcast ref frame = some (result, m)) :
      Step fleet s (.apply x) ((s.withManager x m).withLoop x .waiting)
        [.delivered x ref frame (.message message) ((s.manager x).receivers ref)]

/-- Sending to a local room leaves a broadcast with the number of receivers reached. -/
theorem afterLocal_of_broadcast {m m' : RoomManager} {ref : RoomRef} {frame : Frame}
    {result : Outcome WsError ℕ} (h : m.broadcast ref frame = some (result, m')) :
    Phase.afterLocal result = .publishing (m.receivers ref) := by
  obtain ⟨room, hroom, heq⟩ := Option.map_eq_some_iff.1 h
  obtain ⟨rfl, _⟩ := Prod.mk.inj heq
  have hreceivers : m.receivers ref = room.receiverCount := by
    rw [RoomManager.receivers, hroom, Option.elim_some]
  rw [Phase.afterLocal, RedisRoomRegistry.localCount_broadcast, hreceivers]

/-- Every step of the machine is one of these. -/
theorem step_cases {fleet : Fleet ν} {s s' : State ν} {e : Event ν} {out : List (Obs ν)}
    (h : step fleet s e = some (s', out)) : Step fleet s e s' out := by
  cases e with
  | use x op =>
    obtain ⟨hop, h⟩ := Option.ite_none_left_eq_some.1 h
    obtain ⟨⟨result, m⟩, hcall, heq⟩ := Option.map_eq_some_iff.1 h
    obtain ⟨rfl, rfl⟩ := Prod.mk.inj heq
    exact .use (Bool.not_eq_true _ ▸ hop) hcall
  | broadcast source =>
    obtain ⟨rfl, rfl⟩ := Prod.mk.inj (Option.some.inj h)
    exact .broadcast source
  | enter k =>
    simp only [step] at h
    split at h
    · next source htask =>
      obtain ⟨rfl, rfl⟩ := Prod.mk.inj (Option.some.inj h)
      rw [Cluster.enter]
      split
      · next ref m hmade =>
        refine .enter htask ?_
        rw [RoomManager.call, hmade]
        rfl
      · exact .panic htask
    · cases h
  | deliver k =>
    simp only [step] at h
    split at h
    · next source ref htask =>
      obtain ⟨⟨result, m⟩, hsent, heq⟩ := Option.map_eq_some_iff.1 h
      obtain ⟨rfl, rfl⟩ := Prod.mk.inj heq
      rw [afterLocal_of_broadcast hsent]
      exact .deliver htask hsent
    · cases h
  | publish k outcome =>
    simp only [step] at h
    split at h
    · next source delivered htask =>
      obtain ⟨rfl, rfl⟩ := Prod.mk.inj (Option.some.inj h)
      rw [Cluster.publish]
      split
      · next hreached => exact .publish htask hreached
      · next hreached => exact .publishLost htask (Bool.not_eq_true _ ▸ hreached)
    · cases h
  | lose x i =>
    obtain ⟨rfl, rfl⟩ := Prod.mk.inj (Option.some.inj h)
    exact .lose x i
  | receive x =>
    simp only [step] at h
    split at h
    · next hloop =>
      obtain ⟨⟨message, redis⟩, hhand, heq⟩ := Option.map_eq_some_iff.1 h
      obtain ⟨rfl, rfl⟩ := Prod.mk.inj heq
      exact .receive hloop hhand
    · cases h
  | apply x =>
    simp only [step] at h
    split at h
    · next message ref frame hloop =>
      obtain ⟨⟨result, m⟩, hsent, heq⟩ := Option.map_eq_some_iff.1 h
      obtain ⟨rfl, rfl⟩ := Prod.mk.inj heq
      exact .apply hloop hsent
    · cases h

end WsKit.Cluster
