import WsKit.RoomManager

/-!
# Threads that share a room manager

Calls on the manager run one access at a time: a lookup, the construction of a candidate,
`room_opened`, the insert-or-get, a removal, `room_closed`, and the check of one room in a
scan. A scan visits the map shard by shard and holds a shard's read lock while it checks the
rooms of the shard; insertions and removals wait for the locks of theirs.
-/

namespace WsKit.RoomThreads

open Base

/-- The two cleanups. -/
inductive Sweep where
  | cleanup
  | cleanupEmpty
  deriving DecidableEq

/-- The check that a cleanup makes of a room. -/
def Sweep.removes [ChannelApi Frame] : Sweep → Room → Bool
  | .cleanup => Room.isEmpty
  | .cleanupEmpty => fun room => room.participantCount = 0

/-- The calls of a thread. -/
inductive Call where
  | getOrCreate (roomId : Str)
  | getOrCreateWithCapacity (roomId : Str) (capacity : ℕ)
  | remove (roomId : Str)
  | sweep (kind : Sweep)
  deriving DecidableEq

/-- Where a thread stands in a call. A thread that deletes has `pending` ids left of `listed`;
`taken` counts the rooms that it took out, which the code does not. -/
inductive Pc where
  | idle
  | lookingUp (roomId : Str) (capacity : ℕ)
  | constructing (roomId : Str) (capacity : ℕ)
  | opening (roomId : Str) (capacity : ℕ) (candidate : RoomRef)
  | inserting (roomId : Str) (capacity : ℕ) (candidate : RoomRef)
  | removing (roomId : Str)
  | closingRemoved (roomId : Str) (ref : RoomRef)
  | enteringShard (kind : Sweep) (shard : ℕ) (found : List Str)
  | scanning (kind : Sweep) (shard : ℕ) (todo found : List Str)
  | deleting (kind : Sweep) (pending : List Str) (listed taken : ℕ)
  | closing (kind : Sweep) (left listed taken : ℕ)
  deriving DecidableEq

/-- The id that the next access inserts under. -/
def Pc.inserts : Pc → Option Str
  | .inserting roomId _ _ => some roomId
  | _ => none

/-- The id that the next access of a cleanup removes. -/
def Pc.deletes : Pc → Option Str
  | .deleting _ (roomId :: _) _ _ => some roomId
  | _ => none

/-- The manager, the number of scans in each shard, the threads, and the handles returned. -/
structure State (ι : Type*) where
  manager : RoomManager
  readers : ℕ → ℕ
  pc : ι → Pc
  handles : List RoomRef

/-- A thread starts a call or takes its next access, or some holder of a handle uses it. -/
inductive Event (ι : Type*) where
  | call (t : ι) (c : Call)
  | advance (t : ι)
  | use (op : RoomOp)
  deriving DecidableEq

/-- What is seen: how calls return, which candidate an insertion maps or drops, and the occupancy
of a room at the moment a cleanup takes it out. -/
inductive Obs (ι : Type*) where
  | panicked (t : ι)
  | inserted (t : ι) (roomId : Str) (capacity : ℕ) (candidate : RoomRef)
  | lost (t : ι) (roomId : Str) (candidate : RoomRef)
  | returned (t : ι) (roomId : Str) (ref : RoomRef)
  | removed (t : ι) (roomId : Str) (ref : Option RoomRef)
  | tookOut (t : ι) (kind : Sweep) (roomId : Str) (occupancy : Option (ℕ × ℕ))
  | missed (t : ι) (kind : Sweep) (roomId : Str)
  | swept (t : ι) (kind : Sweep) (n taken : ℕ)
  | used (op : RoomOp) (result : RoomResult)
  deriving DecidableEq

/-- Where a call begins. -/
def Call.start (defaultCapacity : ℕ) : Call → Pc
  | .getOrCreate roomId => .lookingUp roomId defaultCapacity
  | .getOrCreateWithCapacity roomId capacity => .lookingUp roomId capacity
  | .remove roomId => .removing roomId
  | .sweep kind => .enteringShard kind 0 []

variable {ι : Type*}

/-- A manager with no call in progress and no handle returned. -/
def start (m : RoomManager) : State ι := ⟨m, fun _ => 0, fun _ => .idle, []⟩

namespace State

/-- The manager changes. -/
def withManager (s : State ι) (m : RoomManager) : State ι := { s with manager := m }

/-- A handle is returned. -/
def handOut (s : State ι) (ref : RoomRef) : State ι := { s with handles := ref :: s.handles }

/-- The number of scans in a shard changes. -/
def lockShard (s : State ι) (shard n : ℕ) : State ι :=
  { s with readers := Function.update s.readers shard n }

@[simp] theorem withManager_manager (s : State ι) (m : RoomManager) :
    (s.withManager m).manager = m := rfl

@[simp] theorem handOut_manager (s : State ι) (ref : RoomRef) :
    (s.handOut ref).manager = s.manager := rfl

variable [DecidableEq ι]

/-- A thread moves to another point of its call. -/
def goto (s : State ι) (t : ι) (pc : Pc) : State ι := { s with pc := Function.update s.pc t pc }

@[simp] theorem goto_manager (s : State ι) (t : ι) (pc : Pc) :
    (s.goto t pc).manager = s.manager := rfl

/-- Only the moving thread's program counter changes. -/
theorem goto_pc (s : State ι) (t : ι) (pc : Pc) (u : ι) :
    (s.goto t pc).pc u = if u = t then pc else s.pc u :=
  Function.update_apply ..

end State

variable [DecidableEq ι]

variable [ChannelApi Frame]

/-- One step, given the number of shards and the shard of each id. -/
def step (shards : ℕ) (shardOf : Str → ℕ) (s : State ι) : Event ι → Option (State ι × List (Obs ι))
  | .call t c =>
    if s.pc t = .idle then some (s.goto t (c.start s.manager.defaultCapacity), []) else none
  | .use op =>
    if op.handle.any fun ref => ref ∈ s.handles then
      (s.manager.call op).map fun called => (s.withManager called.2, [.used op called.1])
    else none
  | .advance t =>
    match s.pc t with
    | .idle => none
    | .lookingUp roomId capacity =>
      match s.manager.get roomId with
      | some ref => some ((s.handOut ref).goto t .idle, [.returned t roomId ref])
      | none => some (s.goto t (.constructing roomId capacity), [])
    | .constructing roomId capacity =>
      match s.manager.construct roomId capacity with
      | some made =>
        some ((s.withManager made.2).goto t (.opening roomId capacity made.1), [])
      | none => some (s.goto t .idle, [.panicked t])
    | .opening roomId capacity candidate =>
      some ((s.withManager s.manager.roomOpened).goto t (.inserting roomId capacity candidate), [])
    | .inserting roomId capacity candidate =>
      if s.readers (shardOf roomId) = 0 then
        let ref := (s.manager.insertOrGet roomId candidate).1
        some (((s.withManager (s.manager.insertOrGet roomId candidate).2).handOut ref).goto t .idle,
          [if s.manager.get roomId = none then .inserted t roomId capacity candidate
            else .lost t roomId candidate, .returned t roomId ref])
      else none
    | .removing roomId =>
      if s.readers (shardOf roomId) = 0 then
        match s.manager.removeEntry roomId with
        | (some ref, m) => some ((s.withManager m).goto t (.closingRemoved roomId ref), [])
        | (none, m) => some ((s.withManager m).goto t .idle, [.removed t roomId none])
      else none
    | .closingRemoved roomId ref =>
      some (((s.withManager s.manager.roomClosed).handOut ref).goto t .idle,
        [.removed t roomId (some ref)])
    | .enteringShard kind shard found =>
      if shard < shards then
        let todo := s.manager.rooms.keys.filter fun roomId => shardOf roomId = shard
        some ((s.lockShard shard (s.readers shard + 1)).goto t (.scanning kind shard todo found), [])
      else some (s.goto t (.deleting kind found found.length 0), [])
    | .scanning kind shard [] found =>
      some ((s.lockShard shard (s.readers shard - 1)).goto t (.enteringShard kind (shard + 1) found),
        [])
    | .scanning kind shard (roomId :: todo) found =>
      if ((s.manager.get roomId).bind s.manager.room).any kind.removes then
        some (s.goto t (.scanning kind shard todo (found ++ [roomId])), [])
      else some (s.goto t (.scanning kind shard todo found), [])
    | .deleting kind [] listed taken => some (s.goto t (.closing kind listed listed taken), [])
    | .deleting kind (roomId :: pending) listed taken =>
      if s.readers (shardOf roomId) = 0 then
        match s.manager.removeEntry roomId with
        | (some ref, m) =>
          some ((s.withManager m).goto t (.deleting kind pending listed (taken + 1)),
            [.tookOut t kind roomId ((s.manager.room ref).map Room.occupancy)])
        | (none, m) =>
          some ((s.withManager m).goto t (.deleting kind pending listed taken),
            [.missed t kind roomId])
      else none
    | .closing kind (left + 1) listed taken =>
      some ((s.withManager s.manager.roomClosed).goto t (.closing kind left listed taken), [])
    | .closing kind 0 listed taken => some (s.goto t .idle, [.swept t kind listed taken])

/-- The threads as a machine. -/
def machine (ι : Type*) [DecidableEq ι] (shards : ℕ) (shardOf : Str → ℕ) :
    Machine (State ι) (Event ι) (Obs ι) :=
  ⟨step shards shardOf⟩

/-- What a step can do, with what it found in the map. -/
inductive Step (shards : ℕ) (shardOf : Str → ℕ) (s : State ι) :
    Event ι → State ι → List (Obs ι) → Prop
  | call {t} (c : Call) (h : s.pc t = .idle) : Step shards shardOf s (.call t c)
      (s.goto t (c.start s.manager.defaultCapacity)) []
  | use {op ref result m} (hop : op.handle = some ref) (href : ref ∈ s.handles)
      (h : s.manager.call op = some (result, m)) :
      Step shards shardOf s (.use op) (s.withManager m) [.used op result]
  | found {t roomId capacity ref} (h : s.pc t = .lookingUp roomId capacity)
      (hget : s.manager.get roomId = some ref) : Step shards shardOf s (.advance t)
      ((s.handOut ref).goto t .idle) [.returned t roomId ref]
  | missing {t roomId capacity} (h : s.pc t = .lookingUp roomId capacity)
      (hget : s.manager.get roomId = none) : Step shards shardOf s (.advance t)
      (s.goto t (.constructing roomId capacity)) []
  | construct {t roomId capacity candidate m} (h : s.pc t = .constructing roomId capacity)
      (hmade : s.manager.construct roomId capacity = some (candidate, m)) :
      Step shards shardOf s (.advance t)
      ((s.withManager m).goto t (.opening roomId capacity candidate)) []
  | panic {t roomId capacity} (h : s.pc t = .constructing roomId capacity) :
      Step shards shardOf s (.advance t) (s.goto t .idle) [.panicked t]
  | opened {t roomId capacity candidate} (h : s.pc t = .opening roomId capacity candidate) :
      Step shards shardOf s (.advance t)
      ((s.withManager s.manager.roomOpened).goto t (.inserting roomId capacity candidate)) []
  | insert {t roomId capacity candidate} (h : s.pc t = .inserting roomId capacity candidate)
      (hget : s.manager.get roomId = none) : Step shards shardOf s (.advance t)
      (((s.withManager { s.manager with
        rooms := s.manager.rooms.insert roomId candidate }).handOut candidate).goto t .idle)
      [.inserted t roomId capacity candidate, .returned t roomId candidate]
  | lose {t roomId capacity candidate ref} (h : s.pc t = .inserting roomId capacity candidate)
      (hget : s.manager.get roomId = some ref) : Step shards shardOf s (.advance t)
      ((s.handOut ref).goto t .idle) [.lost t roomId candidate, .returned t roomId ref]
  | remove {t roomId ref} (h : s.pc t = .removing roomId)
      (hget : s.manager.get roomId = some ref) : Step shards shardOf s (.advance t)
      ((s.withManager { s.manager with rooms := s.manager.rooms.erase roomId }).goto t
        (.closingRemoved roomId ref)) []
  | removeMissing {t roomId} (h : s.pc t = .removing roomId)
      (hget : s.manager.get roomId = none) : Step shards shardOf s (.advance t)
      (s.goto t .idle) [.removed t roomId none]
  | closeRemoved {t roomId ref} (h : s.pc t = .closingRemoved roomId ref) :
      Step shards shardOf s (.advance t)
      (((s.withManager s.manager.roomClosed).handOut ref).goto t .idle)
      [.removed t roomId (some ref)]
  | enterShard {t kind shard found} (h : s.pc t = .enteringShard kind shard found) :
      Step shards shardOf s (.advance t)
      ((s.lockShard shard (s.readers shard + 1)).goto t (.scanning kind shard
        (s.manager.rooms.keys.filter fun roomId => shardOf roomId = shard) found)) []
  | endScan {t kind shard found} (h : s.pc t = .enteringShard kind shard found) :
      Step shards shardOf s (.advance t) (s.goto t (.deleting kind found found.length 0)) []
  | leaveShard {t kind shard found} (h : s.pc t = .scanning kind shard [] found) :
      Step shards shardOf s (.advance t)
      ((s.lockShard shard (s.readers shard - 1)).goto t (.enteringShard kind (shard + 1) found)) []
  | list {t kind shard roomId todo found ref room}
      (h : s.pc t = .scanning kind shard (roomId :: todo) found)
      (hget : s.manager.get roomId = some ref) (hroom : s.manager.room ref = some room)
      (hremoves : kind.removes room = true) : Step shards shardOf s (.advance t)
      (s.goto t (.scanning kind shard todo (found ++ [roomId]))) []
  | keep {t kind shard roomId todo found} (h : s.pc t = .scanning kind shard (roomId :: todo) found) :
      Step shards shardOf s (.advance t) (s.goto t (.scanning kind shard todo found)) []
  | allDeleted {t kind listed taken} (h : s.pc t = .deleting kind [] listed taken) :
      Step shards shardOf s (.advance t) (s.goto t (.closing kind listed listed taken)) []
  | takeOut {t kind roomId pending listed taken ref}
      (h : s.pc t = .deleting kind (roomId :: pending) listed taken)
      (hget : s.manager.get roomId = some ref) : Step shards shardOf s (.advance t)
      ((s.withManager { s.manager with rooms := s.manager.rooms.erase roomId }).goto t
        (.deleting kind pending listed (taken + 1)))
      [.tookOut t kind roomId ((s.manager.room ref).map Room.occupancy)]
  | miss {t kind roomId pending listed taken}
      (h : s.pc t = .deleting kind (roomId :: pending) listed taken)
      (hget : s.manager.get roomId = none) : Step shards shardOf s (.advance t)
      (s.goto t (.deleting kind pending listed taken)) [.missed t kind roomId]
  | close {t kind left listed taken} (h : s.pc t = .closing kind (left + 1) listed taken) :
      Step shards shardOf s (.advance t)
      ((s.withManager s.manager.roomClosed).goto t (.closing kind left listed taken)) []
  | finish {t kind listed taken} (h : s.pc t = .closing kind 0 listed taken) :
      Step shards shardOf s (.advance t) (s.goto t .idle) [.swept t kind listed taken]

/-- Every step is one of those. -/
theorem step_cases {shards : ℕ} {shardOf : Str → ℕ} {s s' : State ι} {e : Event ι}
    {out : List (Obs ι)} (h : step shards shardOf s e = some (s', out)) :
    Step shards shardOf s e s' out := by
  cases e with
  | call t c =>
    simp only [step, Option.ite_none_right_eq_some, Option.some.injEq, Prod.mk.injEq] at h
    obtain ⟨hidle, rfl, rfl⟩ := h
    exact .call c hidle
  | use op =>
    simp only [step, Option.ite_none_right_eq_some, Option.any_eq_true, decide_eq_true_eq] at h
    obtain ⟨⟨ref, hop, href⟩, h⟩ := h
    obtain ⟨⟨result, m⟩, hcall, heq⟩ := Option.map_eq_some_iff.1 h
    obtain ⟨rfl, rfl⟩ := Prod.mk.inj heq
    exact .use hop href hcall
  | advance t =>
    cases hpc : s.pc t with
    | idle => simp [step, hpc] at h
    | lookingUp roomId capacity =>
      simp only [step, hpc] at h
      cases hget : s.manager.get roomId with
      | some ref =>
        simp only [hget, Option.some.injEq, Prod.mk.injEq] at h
        obtain ⟨rfl, rfl⟩ := h
        exact .found hpc hget
      | none =>
        simp only [hget, Option.some.injEq, Prod.mk.injEq] at h
        obtain ⟨rfl, rfl⟩ := h
        exact .missing hpc hget
    | constructing roomId capacity =>
      simp only [step, hpc] at h
      cases hmade : s.manager.construct roomId capacity with
      | some made =>
        simp only [hmade, Option.some.injEq, Prod.mk.injEq] at h
        obtain ⟨rfl, rfl⟩ := h
        exact .construct hpc hmade
      | none =>
        simp only [hmade, Option.some.injEq, Prod.mk.injEq] at h
        obtain ⟨rfl, rfl⟩ := h
        exact .panic hpc
    | opening roomId capacity candidate =>
      simp only [step, hpc, Option.some.injEq, Prod.mk.injEq] at h
      obtain ⟨rfl, rfl⟩ := h
      exact .opened hpc
    | inserting roomId capacity candidate =>
      simp only [step, hpc, Option.ite_none_right_eq_some, Option.some.injEq, Prod.mk.injEq] at h
      obtain ⟨_, rfl, rfl⟩ := h
      cases hget : s.manager.get roomId with
      | some ref =>
        rw [RoomManager.insertOrGet_of_get hget, if_neg (Option.some_ne_none ref)]
        exact .lose hpc hget
      | none =>
        rw [RoomManager.insertOrGet_of_get_none hget, if_pos rfl]
        exact .insert hpc hget
    | removing roomId =>
      simp only [step, hpc, Option.ite_none_right_eq_some] at h
      obtain ⟨_, h⟩ := h
      cases hget : s.manager.get roomId with
      | some ref =>
        rw [RoomManager.removeEntry_of_get hget] at h
        simp only [Option.some.injEq, Prod.mk.injEq] at h
        obtain ⟨rfl, rfl⟩ := h
        exact .remove hpc hget
      | none =>
        rw [RoomManager.removeEntry_of_get_none hget] at h
        simp only [Option.some.injEq, Prod.mk.injEq] at h
        obtain ⟨rfl, rfl⟩ := h
        exact .removeMissing hpc hget
    | closingRemoved roomId ref =>
      simp only [step, hpc, Option.some.injEq, Prod.mk.injEq] at h
      obtain ⟨rfl, rfl⟩ := h
      exact .closeRemoved hpc
    | enteringShard kind shard found =>
      simp only [step, hpc] at h
      split at h
      · cases h
        exact .enterShard hpc
      · cases h
        exact .endScan hpc
    | scanning kind shard todo found =>
      cases todo with
      | nil =>
        simp only [step, hpc, Option.some.injEq, Prod.mk.injEq] at h
        obtain ⟨rfl, rfl⟩ := h
        exact .leaveShard hpc
      | cons roomId todo =>
        simp only [step, hpc] at h
        split at h
        · next hlisted =>
          cases h
          obtain ⟨room, hbind, hremoves⟩ := (Option.any_eq_true _ _).1 hlisted
          obtain ⟨ref, hget, hroom⟩ := Option.bind_eq_some_iff.1 hbind
          exact .list hpc hget hroom hremoves
        · cases h
          exact .keep hpc
    | deleting kind pending listed taken =>
      cases pending with
      | nil =>
        simp only [step, hpc, Option.some.injEq, Prod.mk.injEq] at h
        obtain ⟨rfl, rfl⟩ := h
        exact .allDeleted hpc
      | cons roomId pending =>
        simp only [step, hpc, Option.ite_none_right_eq_some] at h
        obtain ⟨_, h⟩ := h
        cases hget : s.manager.get roomId with
        | some ref =>
          rw [RoomManager.removeEntry_of_get hget] at h
          simp only [Option.some.injEq, Prod.mk.injEq] at h
          obtain ⟨rfl, rfl⟩ := h
          exact .takeOut hpc hget
        | none =>
          rw [RoomManager.removeEntry_of_get_none hget] at h
          simp only [Option.some.injEq, Prod.mk.injEq] at h
          obtain ⟨rfl, rfl⟩ := h
          exact .miss hpc hget
    | closing kind left listed taken =>
      cases left with
      | zero =>
        simp only [step, hpc, Option.some.injEq, Prod.mk.injEq] at h
        obtain ⟨rfl, rfl⟩ := h
        exact .finish hpc
      | succ left =>
        simp only [step, hpc, Option.some.injEq, Prod.mk.injEq] at h
        obtain ⟨rfl, rfl⟩ := h
        exact .close hpc

end WsKit.RoomThreads
