import WsKit.LocalHalf

/-!
# Rosters

A room's roster lists who has joined on its handle and not left since, each under the name of the
last join. Only local callers join and leave, so on a node of a fleet the roster is the history of
the node's own calls, and nothing that other nodes send can be seen in it.
-/

namespace WsKit

open Base

namespace Room

/-- Check if a participant is in the room. -/
def contains (room : Room) (participantId : UInt32) : Bool :=
  (room.participants.lookup participantId).isSome

/-- Snapshot of participant ids with their names. -/
def participantsSnapshot (room : Room) : List (UInt32 × Str) :=
  room.participants.entries.map fun entry => (entry.1, entry.2)

/-- Snapshot of participant display names. -/
def participantNames (room : Room) : List Str := Map.values room.participants

end Room

namespace RoomManager

/-- List room ids. -/
def roomIds (m : RoomManager) : List Str := m.rooms.keys

/-- The name under which a participant is on the roster behind a handle. -/
def nameOf (m : RoomManager) (ref : RoomRef) (participantId : UInt32) : Option Str :=
  (m.room ref).bind fun room => room.participants.lookup participantId

/-- The name under which a participant is known after one more call. -/
def noted (ref : RoomRef) (participantId : UInt32) (name : Option Str) :
    RoomOp × RoomResult → Option Str
  | (.join ref' participantId' name', _) =>
    if ref' = ref ∧ participantId' = participantId then some name' else name
  | (.leave ref' participantId', _) =>
    if ref' = ref ∧ participantId' = participantId then none else name
  | _ => name

/-- The name of the last join on the handle that no leave has followed. -/
def nameAfter (tr : List (RoomOp × RoomResult)) (ref : RoomRef) (participantId : UInt32) :
    Option Str :=
  tr.foldl (noted ref participantId) none

/-- Every leave has told whether the participant was there. -/
def LeavesTold (tr : List (RoomOp × RoomResult)) : Prop :=
  ∀ before ref participantId present after,
    tr = before ++ (.leave ref participantId, .left present) :: after →
    present = (nameAfter before ref participantId).isSome

/-- What a room's snapshots show of its roster. -/
structure Shows (room : Room) (roster : UInt32 → Option Str) : Prop where
  listed : ∀ participantId name,
    (participantId, name) ∈ room.participantsSnapshot ↔ roster participantId = some name
  once : (room.participantsSnapshot.map Prod.fst).Nodup
  names : room.participantNames = room.participantsSnapshot.map Prod.snd
  contains : ∀ participantId, room.contains participantId = (roster participantId).isSome
  count : room.participantCount = room.participantsSnapshot.length

/-- The listing of a manager's ids. -/
structure ListsIds (m : RoomManager) : Prop where
  hosted : ∀ roomId, roomId ∈ m.roomIds ↔ (m.get roomId).isSome = true
  once : m.roomIds.Nodup
  count : m.roomCount = m.roomIds.length
  total : m.totalParticipants = ((m.roomIds.filterMap m.get).map fun ref =>
    (m.room ref).elim 0 Room.participantCount).sum

variable {m m' : RoomManager} {op : RoomOp} {result : RoomResult}

/-- A room's snapshots show what its roster maps. -/
theorem shows_participants (room : Room) : Shows room fun id => room.participants.lookup id where
  listed participantId name := by
    rw [Room.participantsSnapshot, List.mem_map]
    constructor
    · rintro ⟨⟨entryId, entryName⟩, hentry, heq⟩
      obtain ⟨rfl, rfl⟩ := Prod.mk.inj heq
      exact AList.mem_lookup_iff.2 hentry
    · intro hlookup
      exact ⟨⟨participantId, name⟩, AList.mem_lookup_iff.1 hlookup, rfl⟩
  once := by
    rw [Room.participantsSnapshot, List.map_map]
    exact room.participants.keys_nodup
  names := by
    rw [Room.participantNames, Room.participantsSnapshot, List.map_map]
    rfl
  contains _ := rfl
  count := by
    rw [Room.participantsSnapshot, List.length_map]
    rfl

/-- A manager lists the ids that it maps. -/
theorem listsIds (m : RoomManager) : ListsIds m where
  hosted roomId := by
    rw [roomIds, AList.mem_keys.symm, RoomManager.get, AList.lookup_isSome]
  once := m.rooms.keys_nodup
  count := Map.size_eq_length_keys m.rooms
  total := by
    have hvalues : m.roomIds.filterMap m.get = Map.values m.rooms := by
      rw [roomIds, AList.keys, List.keys, List.filterMap_map, Map.values,
        ← List.filterMap_eq_map]
      refine List.filterMap_congr fun entry hentry => ?_
      exact AList.mem_lookup_iff.2 hentry
    rw [hvalues]
    rfl

/-- A trace ends with its last call, and the calls before it are an earlier trace. -/
theorem leavesTold_snoc {tr : List (RoomOp × RoomResult)} (h : LeavesTold tr)
    {called : RoomOp × RoomResult} (hlast : ∀ ref participantId present,
      called = (.leave ref participantId, .left present) →
      present = (nameAfter tr ref participantId).isSome) : LeavesTold (tr ++ [called]) := by
  intro before ref participantId present after heq
  cases after using List.reverseRecOn with
  | nil =>
    obtain ⟨rfl, hcalled⟩ := List.append_inj' heq rfl
    exact hlast ref participantId present (List.cons.inj hcalled).1
  | append_singleton after last =>
    rw [← List.cons_append, ← List.append_assoc] at heq
    exact h before ref participantId present after (List.append_inj' heq rfl).1

variable [ChannelApi Frame]

/-- A call changes the roster of its own handle as it is noted. -/
theorem nameOf_of_call (hcall : m.call op = some (result, m')) (ref : RoomRef)
    (participantId : UInt32) :
    m'.nameOf ref participantId = noted ref participantId (m.nameOf ref participantId) (op, result) := by
  have hother : op.handle ≠ some ref → ∀ name,
      noted ref participantId name (op, result) = name := by
    intro hop name
    cases op with
    | join used id' name' => exact if_neg fun h => hop (congrArg some h.1)
    | leave used id' => exact if_neg fun h => hop (congrArg some h.1)
    | _ => rfl
  cases hbefore : m.room ref with
  | none =>
    have hop : op.handle ≠ some ref := by
      intro hop
      obtain ⟨room, _, hroom, _⟩ := call_of_handle hop hcall
      rw [hbefore] at hroom
      cases hroom
    rw [hother hop, nameOf, nameOf, hbefore]
    obtain hafter | ⟨-, roomId, capacity, hafter⟩ := roomStep_of_call hcall ref
    · rw [hafter, hbefore]
      rfl
    · rw [hafter]
      rfl
  | some room =>
    rw [nameOf, nameOf, room_of_call hcall hbefore, hbefore, Option.bind_some, Option.bind_some]
    by_cases hop : op.handle = some ref
    · rw [if_pos hop]
      cases op with
      | join used id' name' =>
        cases hop
        change AList.lookup participantId (room.participants.insert id' name') = _
        rw [Map.lookup_insert, noted]
        by_cases hid : participantId = id'
        · rw [if_pos hid, if_pos ⟨rfl, hid.symm⟩]
        · rw [if_neg hid, if_neg fun h => hid h.2.symm]
      | leave used id' =>
        cases hop
        change AList.lookup participantId (room.participants.erase id') = _
        rw [noted]
        by_cases hid : participantId = id'
        · rw [if_pos ⟨rfl, hid.symm⟩, hid, AList.lookup_erase]
        · rw [if_neg fun h => hid h.2.symm, AList.lookup_erase_ne hid]
      | broadcast used frame =>
        obtain ⟨sent, hsent⟩ := room.broadcast_room_eq none frame
        rw [RoomOp.onRoom, hsent]
        rfl
      | _ => rfl
    · rw [if_neg hop, hother hop]

/-- A leave tells whether the participant was on the roster. -/
theorem present_of_leave {ref : RoomRef} {participantId : UInt32} {present : Bool}
    (hcall : m.call (.leave ref participantId) = some (.left present, m')) :
    present = (m.nameOf ref participantId).isSome := by
  obtain ⟨room, hroom, heq⟩ := Option.map_eq_some_iff.1 hcall
  obtain ⟨hleft, -⟩ := Prod.mk.inj heq
  rw [nameOf, hroom, Option.bind_some]
  exact (RoomResult.left.inj hleft).symm

/-- What every run of a manager keeps. -/
structure Noted (m : RoomManager) (tr : List (RoomOp × RoomResult)) : Prop where
  names : ∀ ref participantId, m.nameOf ref participantId = nameAfter tr ref participantId
  told : LeavesTold tr

/-- Every call is noted. -/
theorem Noted.step {tr out : List (RoomOp × RoomResult)} (h : Noted m tr)
    (hstep : machine.step m op = some (m', out)) : Noted m' (tr ++ out) := by
  obtain ⟨⟨result, next⟩, hcall, heq⟩ := Option.map_eq_some_iff.1 hstep
  obtain ⟨rfl, rfl⟩ := Prod.mk.inj heq
  refine ⟨fun ref participantId => ?_, leavesTold_snoc h.told ?_⟩
  · rw [nameOf_of_call hcall, h.names, nameAfter, nameAfter, List.foldl_append]
    rfl
  · intro ref participantId present hcalled
    obtain ⟨rfl, rfl⟩ := Prod.mk.inj hcalled
    rw [← h.names]
    exact present_of_leave hcall

end RoomManager

namespace Cluster

open RoomManager

variable {ν : Type*} [DecidableEq ν]

section AnyChannel

variable [ChannelApi Frame]

/-- In every run of a fleet, the snapshots of a room on a node list exactly the participants that the
node's own callers joined on its handle and that have not left since, each once, under the name of
the last join; every leave was told whether its participant was there; and the node lists every
hosted id once. -/
theorem roster_history (fleet : Fleet ν) (settings : ν → ℕ × Option StatsRecorder) (x : ν)
    {es : List (Event ν)} {s : State ν} {tr : List (Obs ν)}
    (hrun : (machine fleet).run es (start fun x => .empty (settings x).1 (settings x).2, []) =
      some (s, tr)) :
    (∀ ref room, (s.manager x).room ref = some room →
      Shows room (nameAfter
        (answersOn fleet x es (start fun x => .empty (settings x).1 (settings x).2)) ref)) ∧
      LeavesTold (answersOn fleet x es (start fun x => .empty (settings x).1 (settings x).2)) ∧
      ListsIds (s.manager x) := by
  obtain ⟨m, hmatched, halike⟩ := (follows fleet x).run hrun (Alike.refl _)
  have hnoted := Machine.run_induct_all (P := Noted) (fun _ _ _ _ _ h hstep => h.step hstep)
    (hmatched []) ⟨fun _ _ => rfl, fun _ _ _ _ _ heq => by simp at heq⟩
  rw [List.nil_append] at hnoted
  refine ⟨fun ref room hroom => ?_, hnoted.told, listsIds _⟩
  obtain ⟨room', hroom', houtline⟩ := halike.room hroom
  have hnames : (fun id => room.participants.lookup id) = nameAfter
      (answersOn fleet x es (start fun x => .empty (settings x).1 (settings x).2)) ref := by
    funext participantId
    have hsame : room'.participants = room.participants := congrArg Outline.participants houtline
    have hname := hnoted.names ref participantId
    rw [nameOf, hroom', Option.bind_some, hsame] at hname
    exact hname
  rw [← hnames]
  exact shows_participants room

end AnyChannel

/-- Two participants join the lobby of a node, one of them again after another node's broadcast, and
one leaves. -/
def joinedLobby (x y : ν) : List (Event ν) :=
  lobbyBroadcast y x ++ [.use x (.join 0 1 ['a']), .use x (.join 0 2 ['b']),
    .use x (.join 0 1 ['c']), .use x (.leave 0 2)]

/-- The one that stayed is listed under its new name, and the other one is not. -/
theorem roster_history_joinedLobby : ∃ s tr room roster,
    (machine twoNodes).run (joinedLobby 0 1) (start fun _ => .empty 16 none, []) = some (s, tr) ∧
      (s.manager 0).room 0 = some room ∧ Shows room roster ∧ roster 1 = some ['c'] ∧
      roster 2 = none := by
  have hseen : ((machine twoNodes).run (joinedLobby 0 1) (start fun _ => .empty 16 none, [])).any
      (fun c => ((c.1.manager 0).room 0).isSome) := by decide
  obtain ⟨⟨s, tr⟩, hrun, hsome⟩ := (Option.any_eq_true _ _).1 hseen
  obtain ⟨room, hroom⟩ := Option.isSome_iff_exists.1 hsome
  have hshows := (roster_history twoNodes (fun _ => (16, none)) 0 hrun).1 0 room hroom
  exact ⟨s, tr, room, _, hrun, hroom, hshows, by decide, by decide⟩

end Cluster

end WsKit
