import Mathlib.Algebra.BigOperators.Group.Finset.Piecewise
import Mathlib.Algebra.Order.BigOperators.Group.List
import WsKit.Base.Ledger
import WsKit.StatsRollUp

/-!
# Snapshots among recordings

A snapshot visits the shards of the room map one by one and loads the five counters of every room
that it finds, and then the global counters, one atomic after another, while any number of threads
record. The read lock of a shard, which keeps new rooms from appearing in it during the visit, is
left out, so more interleavings are possible here than in the code.
-/

namespace WsKit

open Base

/-- The traffic counters, in the order in which a snapshot loads them. -/
def Counter.all : List Counter := [.messagesIn, .messagesOut, .bytesIn, .bytesOut, .drops]

/-- Set a room's counter. -/
def RoomCounters.store (counters : RoomCounters) : Counter → UInt64 → RoomCounters
  | .messagesIn, v => { counters with messagesIn := v }
  | .messagesOut, v => { counters with messagesOut := v }
  | .bytesIn, v => { counters with bytesIn := v }
  | .bytesOut, v => { counters with bytesOut := v }
  | .drops, v => { counters with drops := v }

/-- Only the counter that is set changes. -/
theorem RoomCounters.read_store (counters : RoomCounters) (c c' : Counter) (v : UInt64) :
    (counters.store c v).read c' = if c = c' then v else counters.read c' := by
  cases c <;> cases c' <;> rfl

namespace Snapshots

open StatsThreads (Access Call Returned total nextAccess)

/-- A global field of a snapshot. -/
inductive Field where
  | connections
  | rooms
  | counter (c : Counter)
  deriving DecidableEq

/-- The global fields, in the order in which a snapshot loads them. -/
def Field.all : List Field := .connections :: .rooms :: Counter.all.map .counter

/-- Load a field into a snapshot. -/
def Field.load (recorder : StatsRecorder) (into : Stats) : Field → Stats
  | .connections => { into with connections := recorder.globals.connections }
  | .rooms => { into with rooms := recorder.globals.rooms }
  | .counter .messagesIn => { into with messagesIn := recorder.globals.messagesIn }
  | .counter .messagesOut => { into with messagesOut := recorder.globals.messagesOut }
  | .counter .bytesIn => { into with bytesIn := recorder.globals.bytesIn }
  | .counter .bytesOut => { into with bytesOut := recorder.globals.bytesOut }
  | .counter .drops => { into with drops := recorder.globals.drops }

/-- Where a snapshot stands: not called, about to enter a shard, with loads left in a shard, with
global fields left to load, or returned. -/
inductive Reader where
  | idle
  | entering (shard : ℕ) (perRoom : Map Str RoomCounters)
  | visiting (shard : ℕ) (loads : List (Str × Counter)) (perRoom : Map Str RoomCounters)
  | loading (fields : List Field) (stats : Stats)
  | done

/-- The recording threads, and the snapshots. -/
structure State (ι κ : Type*) where
  threads : StatsThreads.State ι
  reader : κ → Reader

/-- A step of the recording threads, a call of `snapshot`, or its next step. -/
inductive Event (ι κ : Type*) where
  | thread (e : StatsThreads.Event ι)
  | snapshot (k : κ)
  | read (k : κ)
  deriving DecidableEq

/-- What is seen: every access of a recording, with the call that it is made for, the calls that
return, every load of a traffic counter, and the snapshots returned. -/
inductive Obs (ι κ : Type*) where
  | performed (t : ι) (access : Access) (returns : Returned)
  | returned (t : ι) (returns : Returned)
  | loaded (k : κ) (place : Option Str) (c : Counter)
  | snapshot (k : κ) (stats : Stats)

variable {ι κ : Type*}

/-- A recorder with all counters at zero, no call in progress, and no snapshot called. -/
def start : State ι κ := ⟨StatsThreads.start, fun _ => .idle⟩

variable [DecidableEq ι] [DecidableEq κ]

/-- A snapshot moves on. -/
def State.goto (s : State ι κ) (k : κ) (reader : Reader) : State ι κ :=
  { s with reader := Function.update s.reader k reader }

/-- The loads of the rooms of a shard. -/
def loadsOf (shardOf : Str → ℕ) (shard : ℕ) (recorder : StatsRecorder) : List (Str × Counter) :=
  (recorder.rooms.keys.filter fun room => shardOf room = shard).flatMap fun room =>
    Counter.all.map fun c => (room, c)

/-- Load a counter of a room into the rooms seen so far. -/
def loadRoom (recorder : StatsRecorder) (perRoom : Map Str RoomCounters) (room : Str) (c : Counter) :
    Map Str RoomCounters :=
  perRoom.insert room (((perRoom.lookup room).getD {}).store c
    (((recorder.rooms.lookup room).getD {}).read c))

/-- A snapshot with its rooms, before the global fields are loaded. -/
def statsOf (perRoom : Map Str RoomCounters) : Stats := ⟨0, 0, 0, 0, 0, 0, 0, perRoom⟩

/-- The next step of a snapshot. -/
def advance (shards : ℕ) (shardOf : Str → ℕ) (s : State ι κ) (k : κ) :
    Option (State ι κ × List (Obs ι κ)) :=
  match s.reader k with
  | .idle => none
  | .entering shard perRoom =>
    if shard < shards then
      some (s.goto k (.visiting shard (loadsOf shardOf shard s.threads.stats) perRoom), [])
    else some (s.goto k (.loading Field.all (statsOf perRoom)), [])
  | .visiting shard [] perRoom => some (s.goto k (.entering (shard + 1) perRoom), [])
  | .visiting shard ((room, c) :: loads) perRoom =>
    some (s.goto k (.visiting shard loads (loadRoom s.threads.stats perRoom room c)),
      [.loaded k (some room) c])
  | .loading (field :: fields) stats =>
    some (s.goto k (.loading fields (field.load s.threads.stats stats)),
      match field with
      | .counter c => [.loaded k none c]
      | _ => [])
  | .loading [] stats => some (s.goto k .done, [.snapshot k stats])
  | .done => none

/-- What a step of the threads shows. -/
def shown (s : StatsThreads.State ι) (e : StatsThreads.Event ι) (out : List (StatsThreads.Obs ι)) :
    List (Obs ι κ) :=
  ((nextAccess s e).map fun next => Obs.performed next.1 next.2.1 next.2.2).toList ++
    out.map fun o => .returned o.1 o.2

/-- One step. -/
def step [ChannelApi Frame] (overflowChecks : Bool) (shards : ℕ) (shardOf : Str → ℕ) (s : State ι κ) :
    Event ι κ → Option (State ι κ × List (Obs ι κ))
  | .thread e => (StatsThreads.step overflowChecks s.threads e).map fun next =>
      ({ s with threads := next.1 }, shown s.threads e next.2)
  | .snapshot k =>
    match s.reader k with
    | .idle => some (s.goto k (.entering 0 ∅), [])
    | _ => none
  | .read k => advance shards shardOf s k

/-- Recordings and snapshots as a machine. -/
def machine (ι κ : Type*) [DecidableEq ι] [DecidableEq κ] [ChannelApi Frame] (overflowChecks : Bool)
    (shards : ℕ) (shardOf : Str → ℕ) : Machine (State ι κ) (Event ι κ) (Obs ι κ) :=
  ⟨step overflowChecks shards shardOf⟩

/-! ### Accounts of a trace -/

section Accounts

variable {ι κ : Type*}

/-- The accesses performed, each with the call that it was made for. -/
def performed (tr : List (Obs ι κ)) : List (Access × Returned) :=
  tr.filterMap fun | .performed _ access returns => some (access, returns) | _ => none

@[simp] theorem performed_append (tr out : List (Obs ι κ)) :
    performed (tr ++ out) = performed tr ++ performed out := List.filterMap_append

/-- What was added to a counter in the places that are counted. -/
def added (counts : Option Str → Bool) (c : Counter) (tr : List (Obs ι κ)) : ℕ :=
  ((performed tr).map fun p => p.1.weight counts c).sum

theorem added_append (counts : Option Str → Bool) (c : Counter) (tr out : List (Obs ι κ)) :
    added counts c (tr ++ out) = added counts c tr + added counts c out := by
  rw [added, performed_append, List.map_append, List.sum_append, added, added]

/-- What global-only calls added to a global counter. -/
def globalOnly (c : Counter) (tr : List (Obs ι κ)) : ℕ :=
  ((performed tr).map fun p => if p.2.room = none then p.1.weight Option.isNone c else 0).sum

/-- What rooms' calls added to a global counter. -/
def fromRooms (c : Counter) (tr : List (Obs ι κ)) : ℕ :=
  ((performed tr).map fun p => if p.2.room = none then 0 else p.1.weight Option.isNone c).sum

theorem fromRooms_append (c : Counter) (tr out : List (Obs ι κ)) :
    fromRooms c (tr ++ out) = fromRooms c tr + fromRooms c out := by
  rw [fromRooms, performed_append, List.map_append, List.sum_append, fromRooms, fromRooms]

/-- A global counter has grown by global-only calls and by rooms' calls. -/
theorem added_isNone (c : Counter) (tr : List (Obs ι κ)) :
    added Option.isNone c tr = globalOnly c tr + fromRooms c tr := by
  rw [added, globalOnly, fromRooms, ← List.sum_map_add]
  refine congrArg List.sum (List.map_congr_left fun p _ => ?_)
  split <;> simp

/-- The room whose counter an access adds to. -/
def roomOf : Access → Option Str
  | .add place _ _ => place
  | .entry _ => none

/-- The rooms whose counters were added to. -/
def touched (tr : List (Obs ι κ)) : Finset Str :=
  ((performed tr).filterMap fun p => roomOf p.1).toFinset

/-- The places that a place's counter is read from. -/
def countsAt : Option Str → Option Str → Bool
  | none => Option.isNone
  | some room => fun place => place = some room

/-- What an observation means for the counter of a place. -/
def marksOf (place : Option Str) (c : Counter) : Obs ι κ → List (Mark (ι ⊕ κ) ℕ)
  | .performed t access _ => [.add (.inl t) (access.weight (countsAt place) c)]
  | .loaded k place' c' => if place' = place ∧ c' = c then [.read (.inr k)] else []
  | _ => []

/-- The marks of a trace on the counter of a place. -/
def marks (place : Option Str) (c : Counter) (tr : List (Obs ι κ)) : List (Mark (ι ⊕ κ) ℕ) :=
  tr.flatMap (marksOf place c)

end Accounts

/-- The ledger of a place's counter after a trace. -/
def ledger (place : Option Str) (c : Counter) (tr : List (Obs ι κ)) : Ledger (ι ⊕ κ) ℕ :=
  (Ledger.start 0).replay (marks place c tr)

theorem ledger_append (place : Option Str) (c : Counter) (tr out : List (Obs ι κ)) :
    ledger place c (tr ++ out) = (ledger place c tr).replay (marks place c out) := by
  rw [ledger, marks, List.flatMap_append, Ledger.replay_append, ledger, marks, marks]

theorem coherent_ledger (place : Option Str) (c : Counter) (tr : List (Obs ι κ)) :
    (ledger place c tr).Coherent :=
  (Ledger.coherent_start 0).replay _

/-- The ledger counts what was added. -/
theorem count_ledger (place : Option Str) (c : Counter) (tr : List (Obs ι κ)) :
    (ledger place c tr).count = added (countsAt place) c tr := by
  induction tr using List.reverseRecOn with
  | nil => rfl
  | append_singleton tr o ih =>
    rw [ledger_append, added_append, ← ih]
    cases o with
    | performed t access returns => rfl
    | loaded k place' c' =>
      simp only [marks, marksOf, List.flatMap_cons, List.flatMap_nil, List.append_nil]
      split <;> rfl
    | returned t returns => rfl
    | snapshot k stats => rfl

/-- What was added to the rooms after a snapshot had loaded their counters. -/
def late (k : κ) (c : Counter) (tr : List (Obs ι κ)) : ℕ :=
  ∑ room ∈ touched tr, ((ledger (some room) c tr).taken (.inr k)).since

/-- What a call in progress has added to its room's counter, but not yet to the global one. -/
def owed (c : Counter) : StatsThreads.Pc → ℕ
  | .recording remaining returns =>
    if returns.room = none then 0
    else total Option.isNone c remaining - total Option.isSome c remaining
  | _ => 0

/-- An access to a room's counter is counted for one room. -/
theorem sum_weight_rooms {rooms : Finset Str} (c : Counter) (access : Access)
    (hroom : ∀ room, roomOf access = some room → room ∈ rooms) :
    ∑ room ∈ rooms, access.weight (countsAt (some room)) c = access.weight Option.isSome c := by
  cases access with
  | entry room => exact Finset.sum_const_zero
  | add place c' n =>
    cases place with
    | none => simp [Access.weight, countsAt]
    | some room =>
      have hmem : room ∈ rooms := hroom room rfl
      by_cases hc : c' = c
      · simp only [Access.weight, countsAt, hc, decide_eq_true_eq, Option.some.injEq,
          Option.isSome_some, and_true, if_true]
        exact (Finset.sum_ite_eq rooms room fun _ => n.toNat).trans (if_pos hmem)
      · simp [Access.weight, hc]

omit [DecidableEq ι] [DecidableEq κ] in
/-- What was added to the rooms is the sum over them. -/
theorem sum_added_rooms (c : Counter) (tr : List (Obs ι κ)) {rooms : Finset Str}
    (hrooms : touched tr ⊆ rooms) :
    ∑ room ∈ rooms, added (countsAt (some room)) c tr = added Option.isSome c tr := by
  have hmem : ∀ p ∈ performed tr, ∀ room, roomOf p.1 = some room → room ∈ rooms := by
    intro p hp room hroom
    exact hrooms (List.mem_toFinset.2 (List.mem_filterMap.2 ⟨p, hp, hroom⟩))
  rw [added]
  simp only [added]
  generalize performed tr = accesses at hmem
  induction accesses with
  | nil => exact Finset.sum_const_zero
  | cons p accesses ih =>
    simp only [List.map_cons, List.sum_cons, Finset.sum_add_distrib]
    rw [sum_weight_rooms c p.1 (hmem p List.mem_cons_self),
      ih fun q hq => hmem q (List.mem_cons_of_mem p hq)]

/-! ### Calls in progress -/

/-- The accesses of a call for a room with two amounts: the global part of what is left makes up
for the rooms' part. -/
theorem total_suffix_pair {room : Str} {c₁ c₂ : Counter} {n₁ n₂ : UInt64}
    {remaining : List Access}
    (h : remaining <:+ [.entry room, .add (some room) c₁ n₁, .add (some room) c₂ n₂,
      .add none c₁ n₁, .add none c₂ n₂]) (c : Counter) :
    total Option.isSome c remaining ≤
      total Option.isNone c remaining := by
  simp only [List.suffix_cons_iff, List.suffix_nil] at h
  obtain rfl | rfl | rfl | rfl | rfl | rfl := h <;>
    simp [total, Access.weight]

/-- So it does for a call of a room with one amount. -/
theorem total_suffix_single {room : Str} {c₁ : Counter} {n₁ : UInt64}
    {remaining : List Access}
    (h : remaining <:+ [.entry room, .add (some room) c₁ n₁, .add none c₁ n₁]) (c : Counter) :
    total Option.isSome c remaining ≤
      total Option.isNone c remaining := by
  simp only [List.suffix_cons_iff, List.suffix_nil] at h
  obtain rfl | rfl | rfl | rfl := h <;> simp [total, Access.weight]

/-- Accesses to no room's counter have no rooms' part. -/
theorem total_isSome_eq_zero {accesses : List Access}
    (h : ∀ access ∈ accesses, roomOf access = none) (c : Counter) :
    total Option.isSome c accesses = 0 := by
  refine List.sum_eq_zero fun n hn => ?_
  obtain ⟨access, hmem, rfl⟩ := List.mem_map.1 hn
  cases access with
  | entry room => rfl
  | add place c' n =>
    obtain rfl : place = none := h _ hmem
    simp [Access.weight]

/-- A global-only call adds to no room's counter. -/
theorem roomOf_of_mem_accesses {call : Call} (h : call.room = none) :
    ∀ access ∈ call.accesses, roomOf access = none := by
  cases call with
  | recordMessageIn bytes | recordMessageOut count bytes | recordDrop =>
    simp [Call.accesses, roomOf]
  | _ => cases h

/-- Of what is left of a call, the global part makes up for the rooms' part. -/
theorem total_suffix_call {call : Call} {remaining : List Access}
    (h : remaining <:+ call.accesses) (c : Counter) :
    total Option.isSome c remaining ≤
      total Option.isNone c remaining := by
  by_cases hroom : call.room = none
  · rw [total_isSome_eq_zero fun access hmem =>
      roomOf_of_mem_accesses hroom access (h.subset hmem)]
    exact Nat.zero_le _
  · cases call with
    | recordRoomMessageIn room bytes => exact total_suffix_pair h c
    | recordRoomMessageOut room count bytes => exact total_suffix_pair h c
    | recordRoomDrop room => exact total_suffix_single h c
    | _ => exact (hroom rfl).elim

/-- A call that returns has made the accesses of some recording, or none. -/
theorem accesses_eq (returns : Returned) :
    returns.accesses = [] ∨
      ∃ call : Call, returns.accesses = call.accesses ∧ returns.room = call.room := by
  cases returns with
  | recorded call => exact .inr ⟨call, rfl, rfl⟩
  | broadcasted room frame result =>
    cases result with
    | ok n => exact .inr ⟨.recordRoomMessageOut room _ _, rfl, rfl⟩
    | error fault =>
      by_cases hfull : fault = .failed .broadcastFull
      · subst hfull
        exact .inr ⟨.recordRoomDrop room, rfl, rfl⟩
      · exact .inl (StatsThreads.accesses_of_error hfull room frame).1

theorem total_suffix {returns : Returned} {remaining : List Access}
    (h : remaining <:+ returns.accesses) (c : Counter) :
    total Option.isSome c remaining ≤ total Option.isNone c remaining ∧
      (returns.room = none → total Option.isSome c remaining = 0) := by
  obtain hnone | ⟨call, haccesses, hroom⟩ := accesses_eq returns
  · rw [hnone, List.suffix_nil] at h
    rw [h]
    exact ⟨Nat.le_refl 0, fun _ => rfl⟩
  · rw [haccesses] at h
    refine ⟨total_suffix_call h c, fun hnone => total_isSome_eq_zero (fun access hmem => ?_) c⟩
    exact roomOf_of_mem_accesses (hroom ▸ hnone) access (h.subset hmem)

/-- A call that has made no access owes nothing. -/
theorem owed_accesses (c : Counter) (returns : Returned) :
    owed c (.recording returns.accesses returns) = 0 := by
  rw [owed]
  split
  · rfl
  · next hroom =>
    obtain hnone | ⟨call, haccesses, hcall⟩ := accesses_eq returns
    · rw [hnone]
      rfl
    · rw [haccesses]
      rw [hcall] at hroom
      cases call with
      | recordRoomMessageIn room bytes | recordRoomMessageOut room count bytes
      | recordRoomDrop room => simp [total, Call.accesses, Access.weight]
      | _ => exact (hroom rfl).elim

/-- What an access changes in what its call owes. -/
theorem owed_perform {access : Access} {remaining : List Access} {returns : Returned}
    (h : access :: remaining <:+ returns.accesses) (c : Counter) :
    access.weight Option.isSome c + owed c (.recording (access :: remaining) returns) =
      (if returns.room = none then 0 else access.weight Option.isNone c) +
        owed c (.recording remaining returns) := by
  have htail : remaining <:+ returns.accesses := (List.suffix_cons access remaining).trans h
  obtain ⟨hle, hzero⟩ := total_suffix h c
  obtain ⟨hle', -⟩ := total_suffix htail c
  have hsplit : ∀ counts, total counts c (access :: remaining) =
      access.weight counts c + total counts c remaining := fun _ => List.sum_cons
  rw [hsplit, hsplit] at hle
  rw [hsplit] at hzero
  rw [owed, owed]
  split
  · next hroom =>
    have hnone := hzero hroom
    omega
  · rw [hsplit, hsplit]
    omega

end Snapshots

end WsKit
