import WsKit.RoomManager

/-!
# Threads that share a stats recorder

Clones of a recorder are used by any number of threads, and by rooms that broadcast. Every
`fetch_add`, and the creation of a room's entry, is one step; so is the send of a broadcast,
which comes before the recording. The read guard on a room's entry, which keeps some calls from
overlapping, is left out, so more interleavings are possible here than in the code.
-/

namespace WsKit

open Base

/-- The traffic counters. -/
inductive Counter where
  | messagesIn
  | messagesOut
  | bytesIn
  | bytesOut
  | drops
  deriving DecidableEq

/-- The value of a room's counter. -/
def RoomCounters.read (counters : RoomCounters) : Counter → UInt64
  | .messagesIn => counters.messagesIn
  | .messagesOut => counters.messagesOut
  | .bytesIn => counters.bytesIn
  | .bytesOut => counters.bytesOut
  | .drops => counters.drops

/-- Add to a room's counter, wrapping. -/
def RoomCounters.fetchAdd (counters : RoomCounters) : Counter → UInt64 → RoomCounters
  | .messagesIn, n => { counters with messagesIn := counters.messagesIn + n }
  | .messagesOut, n => { counters with messagesOut := counters.messagesOut + n }
  | .bytesIn, n => { counters with bytesIn := counters.bytesIn + n }
  | .bytesOut, n => { counters with bytesOut := counters.bytesOut + n }
  | .drops, n => { counters with drops := counters.drops + n }

/-- Add to a global counter, wrapping. -/
def Globals.fetchAdd (globals : Globals) : Counter → UInt64 → Globals
  | .messagesIn, n => { globals with messagesIn := globals.messagesIn + n }
  | .messagesOut, n => { globals with messagesOut := globals.messagesOut + n }
  | .bytesIn, n => { globals with bytesIn := globals.bytesIn + n }
  | .bytesOut, n => { globals with bytesOut := globals.bytesOut + n }
  | .drops, n => { globals with drops := globals.drops + n }

/-- The value of a global counter in a snapshot. -/
def Stats.read (stats : Stats) : Counter → UInt64
  | .messagesIn => stats.messagesIn
  | .messagesOut => stats.messagesOut
  | .bytesIn => stats.bytesIn
  | .bytesOut => stats.bytesOut
  | .drops => stats.drops

/-- An addition raises its own counter only. -/
theorem RoomCounters.read_fetchAdd (counters : RoomCounters) (c c' : Counter) (n : UInt64) :
    (counters.fetchAdd c n).read c' = if c = c' then counters.read c' + n else counters.read c' := by
  cases c <;> cases c' <;> rfl

namespace StatsThreads

/-- An atomic access: to make sure that a room has an entry, or to add to a counter, which is a
room's or global. -/
inductive Access where
  | entry (room : Str)
  | add (room : Option Str) (c : Counter) (n : UInt64)
  deriving DecidableEq

/-- The effect of an access. -/
def Access.perform (stats : StatsRecorder) : Access → StatsRecorder
  | .entry room => stats.updateRoom room fun counters => counters
  | .add (some room) c n => stats.updateRoom room fun counters => counters.fetchAdd c n
  | .add none c n => { stats with globals := stats.globals.fetchAdd c n }

/-- The recording calls. -/
inductive Call where
  | recordMessageIn (bytes : UInt64)
  | recordMessageOut (count bytes : UInt64)
  | recordDrop
  | recordRoomMessageIn (room : Str) (bytes : UInt64)
  | recordRoomMessageOut (room : Str) (count bytes : UInt64)
  | recordRoomDrop (room : Str)
  deriving DecidableEq

/-- The accesses of a call, in order. -/
def Call.accesses : Call → List Access
  | .recordMessageIn bytes => [.add none .messagesIn 1, .add none .bytesIn bytes]
  | .recordMessageOut count bytes => [.add none .messagesOut count, .add none .bytesOut bytes]
  | .recordDrop => [.add none .drops 1]
  | .recordRoomMessageIn room bytes =>
    [.entry room, .add (some room) .messagesIn 1, .add (some room) .bytesIn bytes,
      .add none .messagesIn 1, .add none .bytesIn bytes]
  | .recordRoomMessageOut room count bytes =>
    [.entry room, .add (some room) .messagesOut count, .add (some room) .bytesOut bytes,
      .add none .messagesOut count, .add none .bytesOut bytes]
  | .recordRoomDrop room => [.entry room, .add (some room) .drops 1, .add none .drops 1]

/-- The method that a call runs. -/
def Call.apply (stats : StatsRecorder) : Call → StatsRecorder
  | .recordMessageIn bytes => stats.recordMessageIn bytes
  | .recordMessageOut count bytes => stats.recordMessageOut count bytes
  | .recordDrop => stats.recordDrop
  | .recordRoomMessageIn room bytes => stats.recordRoomMessageIn room bytes
  | .recordRoomMessageOut room count bytes => stats.recordRoomMessageOut room count bytes
  | .recordRoomDrop room => stats.recordRoomDrop room

/-- Two updates of a room are one. -/
theorem updateRoom_updateRoom (stats : StatsRecorder) (room : Str)
    (f g : RoomCounters → RoomCounters) :
    (stats.updateRoom room f).updateRoom room g = stats.updateRoom room fun counters => g (f counters) := by
  simp only [StatsRecorder.updateRoom, AList.insert_insert, AList.lookup_insert, Option.getD_some]

/-- A call that nothing interrupts does what its method says. -/
theorem foldl_perform_accesses (stats : StatsRecorder) (c : Call) :
    c.accesses.foldl Access.perform stats = c.apply stats := by
  cases c with
  | recordMessageIn bytes => rfl
  | recordMessageOut count bytes => rfl
  | recordDrop => rfl
  | recordRoomMessageIn room bytes =>
    simp only [Call.accesses, List.foldl_cons, Access.perform, updateRoom_updateRoom]
    rfl
  | recordRoomMessageOut room count bytes =>
    simp only [Call.accesses, List.foldl_cons, Access.perform, updateRoom_updateRoom]
    rfl
  | recordRoomDrop room =>
    simp only [Call.accesses, List.foldl_cons, Access.perform, updateRoom_updateRoom]
    rfl

/-- What a thread's call shows when it returns: that it has recorded, or that a broadcast on a room
with an id sent its frame or failed. -/
inductive Returned where
  | recorded (c : Call)
  | broadcasted (room : Str) (frame : Frame) (result : Outcome WsError ℕ)
  deriving DecidableEq

/-- The accesses that come before a return. -/
def Returned.accesses : Returned → List Access
  | .recorded c => c.accesses
  | .broadcasted room frame (.ok n) =>
    (Call.recordRoomMessageOut room (.ofNat n) (.ofNat frame.len * .ofNat n)).accesses
  | .broadcasted room _ (.error (.failed .broadcastFull)) => (Call.recordRoomDrop room).accesses
  | .broadcasted _ _ (.error _) => []

/-- Where a thread stands in a call. -/
inductive Pc where
  | idle
  | sending (ref : RoomRef) (frame : Frame)
  | recording (remaining : List Access) (returns : Returned)
  deriving DecidableEq

/-- The counters behind the recorder, every room that carries it, and the threads. -/
structure State (ι : Type*) where
  stats : StatsRecorder
  rooms : List Room
  pc : ι → Pc

/-- A thread starts a call or takes its next access; or somebody makes a room, uses one otherwise
than to broadcast, or tells the recorder of a room that a manager opened or closed. -/
inductive Event (ι : Type*) where
  | call (t : ι) (c : Call)
  | broadcast (t : ι) (ref : RoomRef) (frame : Frame)
  | advance (t : ι)
  | make (roomId : Str) (capacity : ℕ)
  | use (op : RoomOp)
  | roomOpened
  | roomClosed
  deriving DecidableEq

/-- What is seen: the calls that return, in order. -/
abbrev Obs (ι : Type*) := ι × Returned

variable {ι : Type*}

/-- A recorder with all counters at zero, and no room and no call yet. -/
def start : State ι := ⟨.new, [], fun _ => .idle⟩

variable [DecidableEq ι]

/-- A thread moves to another point of its call. -/
def State.goto (s : State ι) (t : ι) (pc : Pc) : State ι :=
  { s with pc := Function.update s.pc t pc }

variable [ChannelApi Frame]

/-- The send of a broadcast, and the product that is evaluated before the recording begins. -/
def send (overflowChecks : Bool) (s : State ι) (t : ι) (ref : RoomRef) (frame : Frame) (room : Room) :
    State ι × List (Obs ι) :=
  match room.tx.send frame with
  | (some n, tx) =>
    let s := { s with rooms := s.rooms.modify ref fun room => { room with tx } }
    match (Outcome.mulU64 overflowChecks (.ofNat frame.len) (.ofNat n) : Outcome WsError UInt64) with
    | .ok bytes =>
      (s.goto t (.recording (Call.recordRoomMessageOut room.id (.ofNat n) bytes).accesses
        (.broadcasted room.id frame (.ok n))), [])
    | .error fault => (s.goto t .idle, [(t, .broadcasted room.id frame (.error fault))])
  | (none, _) =>
    (s.goto t (.recording (Call.recordRoomDrop room.id).accesses
      (.broadcasted room.id frame (.error (.failed .broadcastFull)))), [])

/-- One step. -/
def step (overflowChecks : Bool) (s : State ι) : Event ι → Option (State ι × List (Obs ι))
  | .call t c =>
    if s.pc t = .idle then some (s.goto t (.recording c.accesses (.recorded c)), []) else none
  | .broadcast t ref frame => if s.pc t = .idle then some (s.goto t (.sending ref frame), []) else none
  | .advance t =>
    match s.pc t with
    | .idle => none
    | .sending ref frame => (s.rooms[ref]?).map (send overflowChecks s t ref frame)
    | .recording [] returns => some (s.goto t .idle, [(t, returns)])
    | .recording (access :: remaining) returns =>
      some (({ s with stats := access.perform s.stats } : State ι).goto t
        (.recording remaining returns), [])
  | .make roomId capacity =>
    (Room.withStats roomId capacity).map fun room => ({ s with rooms := s.rooms ++ [room] }, [])
  | .use op =>
    if op.sends then none
    else op.handle.map fun ref => ({ s with rooms := s.rooms.modify ref op.onRoom }, [])
  | .roomOpened => some ({ s with stats := s.stats.roomOpened }, [])
  | .roomClosed => some ({ s with stats := s.stats.roomClosed }, [])

/-- The threads as a machine. -/
def machine (ι : Type*) [DecidableEq ι] (overflowChecks : Bool) :
    Machine (State ι) (Event ι) (Obs ι) :=
  ⟨step overflowChecks⟩

/-- The accesses that a thread still has to make. -/
def Pc.remaining : Pc → List Access
  | .recording remaining _ => remaining
  | _ => []

/-- All accesses of the call that a thread records. -/
def Pc.begun : Pc → List Access
  | .recording _ returns => returns.accesses
  | _ => []

/-- The access that a step makes, and the call that it is made for. -/
def nextAccess (s : State ι) : Event ι → Option (ι × Access × Returned)
  | .advance t =>
    match s.pc t with
    | .recording (access :: _) returns => some (t, access, returns)
    | _ => none
  | _ => none

/-- What a step does to the recorder and to the thread that takes it, by the access that it makes, if
any. -/
inductive Moves (s : State ι) : Option (ι × Access × Returned) → State ι → List (Obs ι) → Prop
  | shared {s'} (hpc : s'.pc = s.pc)
      (hstats : s'.stats = s.stats ∨ s'.stats = s.stats.roomOpened ∨ s'.stats = s.stats.roomClosed) :
      Moves s none s' []
  | begins {s' t pc} (hbefore : (s.pc t).remaining = (s.pc t).begun)
      (hnone : (s.pc t).begun = []) (hafter : pc.remaining = pc.begun)
      (hpc : s'.pc = Function.update s.pc t pc) (hstats : s'.stats = s.stats) : Moves s none s' []
  | performs {s' t access remaining returns}
      (h : s.pc t = .recording (access :: remaining) returns)
      (hpc : s'.pc = Function.update s.pc t (.recording remaining returns))
      (hstats : s'.stats = access.perform s.stats) : Moves s (some (t, access, returns)) s' []
  | returns {s' t returns} (hremaining : (s.pc t).remaining = [])
      (hbegun : (s.pc t).begun = returns.accesses)
      (hpc : s'.pc = Function.update s.pc t .idle) (hstats : s'.stats = s.stats) :
      Moves s none s' [(t, returns)]

/-- The send of a broadcast begins a recording, or panics before it. -/
theorem moves_of_send {overflowChecks : Bool} {s : State ι} {t : ι} {ref : RoomRef} {frame : Frame}
    (h : s.pc t = .sending ref frame) (room : Room) :
    Moves s none (send overflowChecks s t ref frame room).1
      (send overflowChecks s t ref frame room).2 := by
  have hremaining : (s.pc t).remaining = [] := by rw [h]; rfl
  have hbegun : (s.pc t).begun = [] := by rw [h]; rfl
  rw [send]
  split
  · next n tx _ =>
    rcases Outcome.mulU64_cases (ε := WsError) overflowChecks (.ofNat frame.len) (.ofNat n)
      with hmul | hmul
    · simp only [hmul]
      exact .begins (hremaining.trans hbegun.symm) hbegun rfl rfl rfl
    · simp only [hmul]
      exact .returns hremaining hbegun rfl rfl
  · exact .begins (hremaining.trans hbegun.symm) hbegun rfl rfl rfl

/-- Every step is one of those. -/
theorem moves_of_step {overflowChecks : Bool} {s s' : State ι} {e : Event ι} {out : List (Obs ι)}
    (h : step overflowChecks s e = some (s', out)) : Moves s (nextAccess s e) s' out := by
  cases e with
  | call t c =>
    simp only [step, Option.ite_none_right_eq_some, Option.some.injEq, Prod.mk.injEq] at h
    obtain ⟨hidle, rfl, rfl⟩ := h
    exact .begins (by rw [hidle]; rfl) (by rw [hidle]; rfl) rfl rfl rfl
  | broadcast t ref frame =>
    simp only [step, Option.ite_none_right_eq_some, Option.some.injEq, Prod.mk.injEq] at h
    obtain ⟨hidle, rfl, rfl⟩ := h
    exact .begins (by rw [hidle]; rfl) (by rw [hidle]; rfl) rfl rfl rfl
  | advance t =>
    cases hpc : s.pc t with
    | idle => simp [step, hpc] at h
    | sending ref frame =>
      simp only [step, hpc] at h
      obtain ⟨room, _, heq⟩ := Option.map_eq_some_iff.1 h
      obtain ⟨rfl, rfl⟩ := Prod.mk.inj heq
      simp only [nextAccess, hpc]
      exact moves_of_send hpc room
    | recording remaining returns =>
      cases remaining with
      | nil =>
        simp only [step, hpc, Option.some.injEq, Prod.mk.injEq] at h
        obtain ⟨rfl, rfl⟩ := h
        simp only [nextAccess, hpc]
        exact .returns (by rw [hpc]; rfl) (by rw [hpc]; rfl) rfl rfl
      | cons access remaining =>
        simp only [step, hpc, Option.some.injEq, Prod.mk.injEq] at h
        obtain ⟨rfl, rfl⟩ := h
        simp only [nextAccess, hpc]
        exact .performs hpc rfl rfl
  | make roomId capacity =>
    obtain ⟨room, _, heq⟩ := Option.map_eq_some_iff.1 h
    obtain ⟨rfl, rfl⟩ := Prod.mk.inj heq
    exact .shared rfl (.inl rfl)
  | use op =>
    simp only [step] at h
    split at h
    · cases h
    · obtain ⟨ref, _, heq⟩ := Option.map_eq_some_iff.1 h
      obtain ⟨rfl, rfl⟩ := Prod.mk.inj heq
      exact .shared rfl (.inl rfl)
  | roomOpened =>
    obtain ⟨rfl, rfl⟩ := Prod.mk.inj (Option.some.inj h)
    exact .shared rfl (.inr (.inl rfl))
  | roomClosed =>
    obtain ⟨rfl, rfl⟩ := Prod.mk.inj (Option.some.inj h)
    exact .shared rfl (.inr (.inr rfl))

/-- A broadcast that nothing interrupts is the room's own. -/
theorem foldl_perform_broadcast (room : Room) (stats : StatsRecorder) (frame : Frame) :
    (room.broadcast (some stats) frame).2.2 =
      some ((Returned.broadcasted room.id frame (room.broadcast none frame).1).accesses.foldl
        Access.perform stats) := by
  by_cases h : room.receiverCount = 0
  · rw [Room.broadcast_of_receiverCount_eq_zero h, Room.broadcast_of_receiverCount_eq_zero h,
      Returned.accesses, foldl_perform_accesses]
    rfl
  · rw [Room.broadcast_of_receiverCount_ne_zero h, Room.broadcast_of_receiverCount_ne_zero h,
      Returned.accesses, foldl_perform_accesses]
    rfl

end StatsThreads

end WsKit
