import Mathlib.Algebra.Order.BigOperators.Group.List
import Mathlib.Algebra.Order.Group.Nat
import WsKit.RoomFrame
import WsKit.RoomRefinement

/-!
# Clients of the room manager

A client obtains a room with one call and is admitted to it, by joining or by subscribing,
with another. A cleanup between the two may take the room, still empty, out of the map; the
handle keeps working, and the next client that asks for the id gets another room. While every
client is admitted through a handle whose room is still mapped, all clients present under an
id are in the one room that the manager returns for it.
-/

namespace WsKit.RoomClients

open Base

/-- The manager, the handles that clients have obtained, each with the id asked for, and the
receivers that they own. -/
structure State (κ : Type*) where
  manager : RoomManager
  handles : List (κ × Str × RoomRef)
  receivers : List (κ × RoomRef × ReceiverId)

/-- What clients do, each on handles of its own, and the cleanups in between. -/
inductive Event (κ : Type*) where
  | getOrCreate (c : κ) (roomId : Str)
  | join (c : κ) (ref : RoomRef) (name : Str)
  | leave (c : κ) (ref : RoomRef)
  | subscribe (c : κ) (ref : RoomRef)
  | dropReceiver (c : κ) (ref : RoomRef) (rx : ReceiverId)
  | broadcast (c : κ) (ref : RoomRef) (frame : Frame)
  | cleanup

variable {κ : Type*}

/-- A client holds a handle when it obtained it under some id. -/
def State.Holds (s : State κ) (c : κ) (ref : RoomRef) : Prop := ∃ roomId, (c, roomId, ref) ∈ s.handles

/-- A client uses its own handles and drops its own receivers. -/
def State.Owns (s : State κ) : Event κ → Prop
  | .getOrCreate _ _ => True
  | .join c ref _ => s.Holds c ref
  | .leave c ref => s.Holds c ref
  | .subscribe c ref => s.Holds c ref
  | .dropReceiver c ref rx => (c, ref, rx) ∈ s.receivers
  | .broadcast c ref _ => s.Holds c ref
  | .cleanup => True

/-- The call that an event makes; a client joins and leaves under its participant id. -/
def Event.op (pid : κ → UInt32) : Event κ → RoomOp
  | .getOrCreate _ roomId => .getOrCreate roomId
  | .join c ref name => .join ref (pid c) name
  | .leave c ref => .leave ref (pid c)
  | .subscribe _ ref => .subscribe ref
  | .dropReceiver _ ref rx => .dropReceiver ref rx
  | .broadcast _ ref frame => .broadcast ref frame
  | .cleanup => .cleanup

/-- The handles after a call has returned. -/
def State.handlesAfter (s : State κ) : Event κ → RoomResult → List (κ × Str × RoomRef)
  | .getOrCreate c roomId, .room ref => (c, roomId, ref) :: s.handles
  | _, _ => s.handles

/-- The receivers after a call has returned; a dropped receiver is gone. -/
def State.receiversAfter (s : State κ) : Event κ → RoomResult → List (κ × RoomRef × ReceiverId)
  | .subscribe c ref, .subscribed rx => (c, ref, rx) :: s.receivers
  | .dropReceiver _ ref rx, .dropped => s.receivers.filter fun owned => owned.2 ≠ (ref, rx)
  | _, _ => s.receivers

/-- The state after a call has returned. -/
def State.after (s : State κ) (e : Event κ) (result : RoomResult) (manager : RoomManager) : State κ :=
  ⟨manager, s.handlesAfter e result, s.receiversAfter e result⟩

/-- No client has done anything yet. -/
def start (manager : RoomManager) : State κ := ⟨manager, [], []⟩

/-- A client is joined to a room when its participant id is on the roster. -/
def State.Joined (pid : κ → UInt32) (s : State κ) (c : κ) (ref : RoomRef) : Prop :=
  ∃ room, s.manager.room ref = some room ∧ pid c ∈ room.participants

/-- A client is subscribed to a room when it owns one of its receivers. -/
def State.Subscribed (s : State κ) (c : κ) (ref : RoomRef) : Prop :=
  ∃ rx, (c, ref, rx) ∈ s.receivers

/-- A client is present under an id in the room that it obtained for the id and that it is joined
or subscribed to. -/
def State.Present (pid : κ → UInt32) (s : State κ) (c : κ) (roomId : Str) (ref : RoomRef) : Prop :=
  (c, roomId, ref) ∈ s.handles ∧ (s.Joined pid c ref ∨ s.Subscribed c ref)

/-- A call admits through a handle whose room is mapped. -/
def AdmitsMapped (pid : κ → UInt32) (s : State κ) (e : Event κ) : Prop :=
  ∀ ref ∈ (e.op pid).admits, ref ∈ Map.values s.manager.rooms

instance (pid : κ → UInt32) (s : State κ) (e : Event κ) : Decidable (AdmitsMapped pid s e) :=
  inferInstanceAs (Decidable (∀ ref ∈ (e.op pid).admits, ref ∈ Map.values s.manager.rooms))

/-- The frames that were sent to a receiver of a room since it subscribed. -/
def State.sentSince (s : State κ) (ref : RoomRef) (rx : ReceiverId) : Option (List Frame) :=
  (s.manager.room ref).bind fun room => room.tx.sentSince rx

/-- No mapped room has more participants than all of them together. -/
theorem participantCount_le_totalParticipants {m : RoomManager} {roomId : Str} {ref : RoomRef}
    {room : Room} (hget : m.get roomId = some ref) (hroom : m.room ref = some room) :
    room.participantCount ≤ m.totalParticipants := by
  apply List.le_sum_of_mem
  refine List.mem_map.2 ⟨ref, Map.mem_values.2 ⟨roomId, hget⟩, ?_⟩
  rw [hroom, Option.elim_some]

/-- Clients joined to one room under different participant ids are both on its roster. -/
theorem two_le_participantCount {pid : κ → UInt32} {s : State κ} {c c' : κ} {ref : RoomRef} {room : Room}
    (hroom : s.manager.room ref = some room) (hc : s.Joined pid c ref) (hc' : s.Joined pid c' ref)
    (hne : pid c ≠ pid c') : 2 ≤ room.participantCount := by
  obtain ⟨joined, hjoined, hmem⟩ := hc
  obtain ⟨joined', hjoined', hmem'⟩ := hc'
  rw [hroom, Option.some.injEq] at hjoined hjoined'
  subst hjoined hjoined'
  exact Map.two_le_size hmem hmem' hne

section AnyChannel

variable [ChannelApi Frame]

section Machine

variable [DecidableEq κ]

/-- Whether a client holds a handle is a search through the handles. -/
instance decidableHolds (s : State κ) (c : κ) (ref : RoomRef) : Decidable (s.Holds c ref) :=
  decidable_of_iff (∃ held ∈ s.handles, held.1 = c ∧ held.2.2 = ref)
    ⟨fun ⟨held, hmem, hc, href⟩ => ⟨held.2.1, by rw [← hc, ← href]; exact hmem⟩,
      fun ⟨_, hmem⟩ => ⟨_, hmem, rfl, rfl⟩⟩

instance decidableOwns (s : State κ) : ∀ e, Decidable (s.Owns e)
  | .getOrCreate _ _ => isTrue trivial
  | .join c ref _ => decidableHolds s c ref
  | .leave c ref => decidableHolds s c ref
  | .subscribe c ref => decidableHolds s c ref
  | .dropReceiver c ref rx => inferInstanceAs (Decidable ((c, ref, rx) ∈ s.receivers))
  | .broadcast c ref _ => decidableHolds s c ref
  | .cleanup => isTrue trivial

/-- Every event is one atomic call, shown with its result. -/
def machine (pid : κ → UInt32) : Machine (State κ) (Event κ) (Event κ × RoomResult) where
  step s e :=
    if s.Owns e then
      (s.manager.call (e.op pid)).map fun called => (s.after e called.1 called.2, [(e, called.1)])
    else none

/-- A step is a call that its client may make. -/
theorem step_eq_some {pid : κ → UInt32} {s s' : State κ} {e : Event κ}
    {out : List (Event κ × RoomResult)} (h : (machine pid).step s e = some (s', out)) :
    ∃ result manager, s.Owns e ∧ s.manager.call (e.op pid) = some (result, manager) ∧
      s' = s.after e result manager ∧ out = [(e, result)] := by
  obtain ⟨howns, h⟩ := Option.ite_none_right_eq_some.1 h
  obtain ⟨⟨result, manager⟩, hcall, heq⟩ := Option.map_eq_some_iff.1 h
  obtain ⟨rfl, rfl⟩ := Prod.mk.inj heq
  exact ⟨result, manager, howns, hcall, rfl, rfl⟩

end Machine

/-! ### What admission keeps -/

/-- Rooms with somebody in them are the ones that their ids are mapped to. -/
def OccupiedMapped (m : RoomManager) : Prop :=
  ∀ ref room, m.room ref = some room → room.isEmpty = false → m.get room.id = some ref

/-- Handles point to rooms made for their ids, receivers are live, and occupied rooms are
mapped. -/
structure Linked (s : State κ) : Prop where
  wellFormed : s.manager.WellFormed
  occupied : OccupiedMapped s.manager
  handles : ∀ c roomId ref, (c, roomId, ref) ∈ s.handles →
    ∃ room, s.manager.room ref = some room ∧ room.id = roomId
  receivers : ∀ c ref rx, (c, ref, rx) ∈ s.receivers →
    ∃ room, s.manager.room ref = some room ∧ rx ∈ room.tx.receivers

section Manager

variable {m m' : RoomManager} {result : RoomResult}

/-- A room that is occupied after a call was mapped before it, when the call admits to mapped
rooms only. -/
theorem OccupiedMapped.get_of_call (h : OccupiedMapped m) (hwell : m.WellFormed) {op : RoomOp}
    (hcall : m.call op = some (result, m')) (hadmits : ∀ ref ∈ op.admits, ref ∈ Map.values m.rooms)
    {ref : RoomRef} {room' : Room} (hroom' : m'.room ref = some room')
    (hoccupied : room'.isEmpty = false) : m.get room'.id = some ref := by
  obtain hafter | ⟨_, roomId, capacity, hafter⟩ := RoomManager.roomStep_of_call hcall ref
  · rw [hroom'] at hafter
    obtain ⟨room, hroom, rfl⟩ := Option.map_eq_some_iff.1 hafter.symm
    by_cases hop : op.handle = some ref
    · rw [if_pos hop] at hoccupied ⊢
      rw [(RoomManager.onRoom_shell op room).1]
      cases hop' : op.admits with
      | none =>
        apply h ref room hroom
        by_contra hempty
        rw [Bool.not_eq_false] at hempty
        rw [RoomManager.onRoom_isEmpty hop' hempty] at hoccupied
        cases hoccupied
      | some admitted =>
        obtain rfl := RoomOp.handle_of_admits hop' hop
        obtain ⟨roomId, hget⟩ := Map.mem_values.1 (hadmits admitted hop')
        obtain ⟨mapped, hmapped, hid⟩ := hwell.mapped roomId admitted hget
        rw [hroom, Option.some.injEq] at hmapped
        rw [hmapped, hid]
        exact hget
    · rw [if_neg hop] at hoccupied ⊢
      exact h ref room hroom hoccupied
  · rw [hroom', Option.some.injEq] at hafter
    rw [hafter, Room.isEmpty_new] at hoccupied
    cases hoccupied

/-- Asking for a room keeps mapped ids mapped. -/
theorem get_of_call_getOrCreate {asked : Str} (hcall : m.call (.getOrCreate asked) = some (result, m'))
    {roomId : Str} {ref : RoomRef} (hget : m.get roomId = some ref) : m'.get roomId = some ref := by
  obtain ⟨_, _, _, rfl⟩ | ⟨hnone, _, rfl⟩ | ⟨_, _, rfl⟩ := RoomManager.call_getOrCreate hcall
  · exact hget
  · exact Map.lookup_insert_of_vacant hnone hget _
  · exact hget

/-- A cleanup keeps the ids of occupied rooms mapped. -/
theorem get_cleanup {roomId : Str} {ref : RoomRef} {room : Room} (hget : m.get roomId = some ref)
    (hroom : m.room ref = some room) (hoccupied : room.isEmpty = false) :
    m.cleanup.2.get roomId = some ref := by
  rw [RoomManager.cleanup, RoomManager.sweep_eq]
  change (Map.eraseAll m.rooms (m.listed Room.isEmpty)).lookup roomId = some ref
  refine Map.lookup_eraseAll_eq_some_iff.2 ⟨fun hlisted => ?_, hget⟩
  obtain ⟨ref', listed, hget', hlistedRoom, hempty⟩ := RoomManager.mem_listed.1 hlisted
  rw [hget, Option.some.injEq] at hget'
  rw [← hget', hroom, Option.some.injEq] at hlistedRoom
  rw [hlistedRoom, hempty] at hoccupied
  cases hoccupied

/-- Every call of a client keeps occupied rooms mapped when it admits to mapped rooms. -/
theorem OccupiedMapped.call (h : OccupiedMapped m) (hwell : m.WellFormed) {pid : κ → UInt32}
    {e : Event κ} (hcall : m.call (e.op pid) = some (result, m'))
    (hadmits : ∀ ref ∈ (e.op pid).admits, ref ∈ Map.values m.rooms) : OccupiedMapped m' := by
  intro ref room hroom hoccupied
  have hget := h.get_of_call hwell hcall hadmits hroom hoccupied
  have huse : ∀ used, (e.op pid).handle = some used → m'.get room.id = some ref := by
    intro used hop
    rw [RoomManager.get, RoomManager.rooms_of_handle hop hcall]
    exact hget
  cases e with
  | getOrCreate c roomId => exact get_of_call_getOrCreate hcall hget
  | cleanup =>
    obtain ⟨_, rfl⟩ := Prod.mk.inj (Option.some.inj hcall)
    have hold : m.room ref = some room := by
      rw [RoomManager.cleanup, RoomManager.sweep_eq] at hroom
      exact hroom
    exact get_cleanup hget hold hoccupied
  | join c used name => exact huse used rfl
  | leave c used => exact huse used rfl
  | subscribe c used => exact huse used rfl
  | dropReceiver c used rx => exact huse used rfl
  | broadcast c used frame => exact huse used rfl

end Manager

/-! ### Runs -/

section Steps

variable {pid : κ → UInt32} {s : State κ} {e : Event κ} {result : RoomResult}
  {manager : RoomManager}

/-- Handles point to rooms made for their ids after a call, too. -/
theorem Linked.handlesAfter (h : Linked s)
    (hcall : s.manager.call (e.op pid) = some (result, manager)) {c : κ} {roomId : Str}
    {ref : RoomRef} (hmem : (c, roomId, ref) ∈ s.handlesAfter e result) :
    ∃ room, manager.room ref = some room ∧ room.id = roomId := by
  have hold : (c, roomId, ref) ∈ s.handles → ∃ room, manager.room ref = some room ∧
      room.id = roomId := by
    intro hmem
    obtain ⟨room, hroom, hid⟩ := h.handles c roomId ref hmem
    obtain ⟨room', hroom', hid'⟩ := RoomManager.id_of_call hcall hroom
    exact ⟨room', hroom', hid'.trans hid⟩
  unfold State.handlesAfter at hmem
  split at hmem
  · next c' roomId' ref' =>
    obtain heq | hmem := List.mem_cons.1 hmem
    · cases heq
      have hwell := (h.wellFormed.refines_call hcall).wellFormed
      exact hwell.mapped _ _ (RoomManager.get_of_getOrCreate hcall)
    · exact hold hmem
  · exact hold hmem

/-- Receivers that clients own are live after a call, too. -/
theorem Linked.receiversAfter (h : Linked s)
    (hcall : s.manager.call (e.op pid) = some (result, manager)) {c : κ} {ref : RoomRef}
    {rx : ReceiverId} (hmem : (c, ref, rx) ∈ s.receiversAfter e result) :
    ∃ room, manager.room ref = some room ∧ rx ∈ room.tx.receivers := by
  have hold : (c, ref, rx) ∈ s.receivers → e.op pid ≠ .dropReceiver ref rx →
      ∃ room, manager.room ref = some room ∧ rx ∈ room.tx.receivers := by
    intro hmem hne
    obtain ⟨room, hroom, hrx⟩ := h.receivers c ref rx hmem
    exact RoomManager.mem_receivers_of_call hcall hroom hrx hne
  cases e with
  | subscribe c' ref' =>
    obtain ⟨room, hroom, heq⟩ := Option.map_eq_some_iff.1 hcall
    obtain ⟨rfl, _⟩ := Prod.mk.inj heq
    obtain heq | hmem := List.mem_cons.1 hmem
    · cases heq
      exact ⟨room.subscribe.2, RoomManager.room_of_handle rfl hcall hroom,
        (AList.mem_insert _).2 (.inl rfl)⟩
    · exact hold hmem RoomOp.noConfusion
  | dropReceiver c' ref' rx' =>
    obtain ⟨room, hroom, heq⟩ := Option.bind_eq_some_iff.1 hcall
    obtain ⟨_, heq⟩ := Option.ite_none_right_eq_some.1 heq
    obtain ⟨rfl, _⟩ := Prod.mk.inj (Option.some.inj heq)
    obtain ⟨hmem, hne⟩ := List.mem_filter.1 hmem
    refine hold hmem fun heq => ?_
    cases heq
    exact of_decide_eq_true hne rfl
  | getOrCreate c' roomId => exact hold hmem RoomOp.noConfusion
  | join c' ref' name => exact hold hmem RoomOp.noConfusion
  | leave c' ref' => exact hold hmem RoomOp.noConfusion
  | broadcast c' ref' frame => exact hold hmem RoomOp.noConfusion
  | cleanup => exact hold hmem RoomOp.noConfusion

/-- Every call that admits to mapped rooms keeps clients linked. -/
theorem Linked.after (h : Linked s) (hadmits : AdmitsMapped pid s e)
    (hcall : s.manager.call (e.op pid) = some (result, manager)) :
    Linked (s.after e result manager) where
  wellFormed := (h.wellFormed.refines_call hcall).wellFormed
  occupied := h.occupied.call h.wellFormed hcall hadmits
  handles _ _ _ hmem := h.handlesAfter hcall hmem
  receivers _ _ _ hmem := h.receiversAfter hcall hmem

end Steps

/-- No client is linked to anything in the beginning. -/
theorem linked_start (defaultCapacity : ℕ) (stats : Option StatsRecorder) :
    Linked (start (.empty defaultCapacity stats) : State κ) where
  wellFormed := RoomManager.wellFormed_empty defaultCapacity stats
  occupied _ _ hroom := by cases hroom
  handles _ _ _ hmem := by cases hmem
  receivers _ _ _ hmem := by cases hmem

variable {pid : κ → UInt32} {s : State κ}

/-- A participant occupies its room. -/
theorem isEmpty_of_mem_participants {room : Room} {participantId : UInt32}
    (h : participantId ∈ room.participants) : room.isEmpty = false := by
  rw [← Bool.not_eq_true, Room.isEmpty_iff]
  intro hzero
  exact Nat.ne_of_gt (Map.size_pos h) (Prod.mk.inj hzero).1

/-- A receiver occupies its room. -/
theorem isEmpty_of_mem_receivers {room : Room} {rx : ReceiverId}
    (h : rx ∈ room.tx.receivers) : room.isEmpty = false := by
  rw [← Bool.not_eq_true, Room.isEmpty_iff]
  intro hzero
  exact Channel.receiverCount_ne_zero_of_mem h (Prod.mk.inj hzero).2

/-- A client that is present is in the room that the manager returns for the id. -/
theorem Linked.get_of_present (h : Linked s) {c : κ} {roomId : Str} {ref : RoomRef}
    (hpresent : s.Present pid c roomId ref) : s.manager.get roomId = some ref := by
  obtain ⟨hmem, hadmitted⟩ := hpresent
  obtain ⟨room, hroom, rfl⟩ := h.handles c roomId ref hmem
  apply h.occupied ref room hroom
  obtain ⟨room', hroom', hjoined⟩ | ⟨rx, howned⟩ := hadmitted
  · rw [hroom, Option.some.injEq] at hroom'
    rw [hroom']
    exact isEmpty_of_mem_participants hjoined
  · obtain ⟨room', hroom', hrx⟩ := h.receivers c ref rx howned
    rw [hroom, Option.some.injEq] at hroom'
    rw [hroom']
    exact isEmpty_of_mem_receivers hrx

variable [DecidableEq κ]

/-- A broadcast on a room goes to every receiver that clients own in it. -/
theorem Linked.broadcast_reaches (h : Linked s) {c c' : κ} {ref : RoomRef} {rx : ReceiverId}
    (hholds : s.Holds c ref) (howned : (c', ref, rx) ∈ s.receivers) (frame : Frame) :
    ∃ n s' before, (machine pid).step s (.broadcast c ref frame) =
        some (s', [(.broadcast c ref frame, .broadcasted (.ok n))]) ∧
      s.sentSince ref rx = some before ∧ s'.sentSince ref rx = some (before ++ [frame]) := by
  obtain ⟨room, hroom, hrx⟩ := h.receivers c' ref rx howned
  have hreceivers : room.receiverCount ≠ 0 := Channel.receiverCount_ne_zero_of_mem hrx
  obtain ⟨start, hlookup⟩ := Map.mem_iff_lookup.1 hrx
  have hsent : room.tx.sentSince rx = some (room.tx.sent.drop start) :=
    Option.map_eq_some_iff.2 ⟨start, hlookup, rfl⟩
  obtain ⟨m', hcall⟩ : ∃ m', s.manager.call (.broadcast ref frame) =
      some (.broadcasted (.ok room.receiverCount), m') := by
    rw [RoomManager.call, RoomManager.broadcast, hroom, Option.map_some,
      Room.broadcast_of_receiverCount_ne_zero hreceivers]
    exact ⟨_, rfl⟩
  refine ⟨room.receiverCount,
    s.after (.broadcast c ref frame) (.broadcasted (.ok room.receiverCount)) m',
    room.tx.sent.drop start, ?_, ?_, ?_⟩
  · change (if s.Holds c ref then (s.manager.call (.broadcast ref frame)).map _ else none) = _
    rw [if_pos hholds, hcall, Option.map_some]
  · rw [State.sentSince, hroom]
    exact hsent
  · have hroom' := RoomManager.room_of_handle rfl hcall hroom
    rw [RoomOp.onRoom, Room.broadcast_of_receiverCount_ne_zero hreceivers] at hroom'
    change (m'.room ref).bind _ = _
    rw [hroom']
    exact (h.wellFormed.channels ref room hroom).sentSince_append frame hsent

/-- In every run whose joins and subscriptions all go through handles to mapped rooms, clients
present under one id are in one room, which is the one that the manager returns for the id. A
broadcast by either goes to every receiver of the other, and the total of participants counts
both. -/
theorem present_sameRoom (pid : κ → UInt32) (defaultCapacity : ℕ) (stats : Option StatsRecorder)
    {es : List (Event κ)} {s : State κ} {tr : List (Event κ × RoomResult)}
    (hrun : (machine pid).run es (start (.empty defaultCapacity stats), []) = some (s, tr))
    (hadmits : (machine pid).Meets (fun s _ e => AdmitsMapped pid s e) es
      (start (.empty defaultCapacity stats), []))
    {c c' : κ} {roomId : Str} {ref ref' : RoomRef} (hc : s.Present pid c roomId ref)
    (hc' : s.Present pid c' roomId ref') :
    ref = ref' ∧ s.manager.get roomId = some ref ∧
      (∀ rx frame, (c', ref', rx) ∈ s.receivers →
        ∃ n s' before, (machine pid).step s (.broadcast c ref frame) =
            some (s', [(.broadcast c ref frame, .broadcasted (.ok n))]) ∧
          s.sentSince ref' rx = some before ∧ s'.sentSince ref' rx = some (before ++ [frame])) ∧
      (s.Joined pid c ref → s.Joined pid c' ref' → pid c ≠ pid c' →
        ∃ room, s.manager.room ref = some room ∧ pid c ∈ room.participants ∧
          pid c' ∈ room.participants ∧ 2 ≤ room.participantCount ∧
          room.participantCount ≤ s.manager.totalParticipants) := by
  have h : Linked s := by
    refine Machine.run_induct (P := fun s _ => Linked s) (fun s tr e s' out hP hG hstep => ?_)
      hrun hadmits (linked_start defaultCapacity stats)
    obtain ⟨result, manager, _, hcall, rfl, _⟩ := step_eq_some hstep
    exact hP.after hG hcall
  have hget := h.get_of_present hc
  have heq : ref = ref' := Option.some.inj (hget.symm.trans (h.get_of_present hc'))
  subst heq
  refine ⟨rfl, hget, fun rx frame howned => ?_, fun hjoined hjoined' hne => ?_⟩
  · exact h.broadcast_reaches ⟨roomId, hc.1⟩ howned frame
  · have hcount : ∀ room, s.manager.room ref = some room → 2 ≤ room.participantCount :=
      fun _ hroom => two_le_participantCount hroom hjoined hjoined' hne
    obtain ⟨room, hroom, hmem⟩ := hjoined
    obtain ⟨room', hroom', hmem'⟩ := hjoined'
    rw [hroom, Option.some.injEq] at hroom'
    subst hroom'
    exact ⟨room, hroom, hmem, hmem', hcount room hroom,
      participantCount_le_totalParticipants hget hroom⟩

end AnyChannel

/-- The participant ids of two clients. -/
def twoClients : Fin 2 → UInt32
  | 0 => 7
  | 1 => 8

/-- Both clients are admitted to the lobby, one leaves and comes back, with cleanups in between. -/
def sharedLobby (c c' : κ) : List (Event κ) :=
  [.getOrCreate c ['l'], .join c 0 ['n'], .cleanup, .getOrCreate c' ['l'], .subscribe c' 0,
    .leave c 0, .cleanup, .join c 0 ['n'], .join c' 0 ['m'], .broadcast c 0 (.binary [1])]

/-- Both clients of the shared lobby are in its one room. -/
theorem present_sameRoom_sharedLobby : ∃ s tr,
    (machine twoClients).run (sharedLobby 0 1) (start (.empty 16 none), []) = some (s, tr) ∧
      s.manager.get ['l'] = some 0 ∧ s.sentSince 0 0 = some [.binary [1]] ∧
      2 ≤ s.manager.totalParticipants := by
  have hseen : ((machine twoClients).run (sharedLobby 0 1) (start (.empty 16 none), [])).any (fun c =>
      decide (c.1.handles = [(1, ['l'], 0), (0, ['l'], 0)]) &&
      decide (c.1.sentSince 0 0 = some [.binary [1]]) &&
      decide ((c.1.manager.room 0).map (fun room => room.participants.keys) = some [8, 7])) := by
    decide
  obtain ⟨⟨s, tr⟩, hrun, hfacts⟩ := (Option.any_eq_true _ _).1 hseen
  simp only [Bool.and_eq_true, decide_eq_true_eq] at hfacts
  obtain ⟨⟨hhandles, hsent⟩, hroster⟩ := hfacts
  obtain ⟨room, hroom, hkeys⟩ := Option.map_eq_some_iff.1 hroster
  have hjoined : ∀ c, s.Joined twoClients c 0 := by
    intro c
    refine ⟨room, hroom, AList.mem_keys.2 ?_⟩
    rw [hkeys]
    revert c
    decide
  have hpresent : ∀ c, s.Present twoClients c ['l'] 0 := by
    intro c
    refine ⟨?_, .inl (hjoined c)⟩
    rw [hhandles]
    revert c
    decide
  have hsame := present_sameRoom twoClients 16 none hrun (by decide) (hpresent 0) (hpresent 1)
  obtain ⟨_, hget, _, hcounted⟩ := hsame
  obtain ⟨_, _, _, _, htwo, hle⟩ := hcounted (hjoined 0) (hjoined 1) (by decide)
  exact ⟨s, tr, hrun, hget, hsent, htwo.trans hle⟩

/-- A cleanup runs between the two calls of the first client's admission. -/
def splitLobby (c c' : κ) : List (Event κ) :=
  [.getOrCreate c ['l'], .cleanup, .getOrCreate c' ['l'], .join c 0 ['n'], .join c' 1 ['m']]

/-- After it both clients are present under the id, in different rooms, and the total of
participants counts one of them. -/
theorem splitLobby_twoRooms : ∃ s tr,
    (machine twoClients).run (splitLobby 0 1) (start (.empty 16 none), []) = some (s, tr) ∧
      s.Present twoClients 0 ['l'] 0 ∧ s.Present twoClients 1 ['l'] 1 ∧
      s.manager.get ['l'] = some 1 ∧ s.manager.totalParticipants = 1 := by
  have hseen : ((machine twoClients).run (splitLobby 0 1) (start (.empty 16 none), [])).any (fun c =>
      decide (c.1.handles = [(1, ['l'], 1), (0, ['l'], 0)]) &&
      decide (c.1.manager.get ['l'] = some 1) && decide (c.1.manager.totalParticipants = 1) &&
      decide ((c.1.manager.room 0).map (fun room => room.participants.keys) = some [7]) &&
      decide ((c.1.manager.room 1).map (fun room => room.participants.keys) = some [8])) := by
    decide
  obtain ⟨⟨s, tr⟩, hrun, hfacts⟩ := (Option.any_eq_true _ _).1 hseen
  simp only [Bool.and_eq_true, decide_eq_true_eq] at hfacts
  obtain ⟨⟨⟨⟨hhandles, hget⟩, htotal⟩, hfirst⟩, hsecond⟩ := hfacts
  obtain ⟨room, hroom, hkeys⟩ := Option.map_eq_some_iff.1 hfirst
  obtain ⟨room', hroom', hkeys'⟩ := Option.map_eq_some_iff.1 hsecond
  refine ⟨s, tr, hrun, ⟨?_, .inl ⟨room, hroom, ?_⟩⟩, ⟨?_, .inl ⟨room', hroom', ?_⟩⟩, hget, htotal⟩
  · rw [hhandles]
    decide
  · rw [AList.mem_keys, hkeys]
    decide
  · rw [hhandles]
    decide
  · rw [AList.mem_keys, hkeys']
    decide

end WsKit.RoomClients
