import WsKit.Base.Listening
import WsKit.RoomFrame

/-!
# Receivers of rooms

Receivers subscribe to the rooms behind handles, read and are dropped, while a manager serves any
calls. Each room's channel moves only when its own handle is used, so whatever happens to other
rooms, and whether the room is still mapped or not, its receivers are told what was broadcast on
it. The implementation of the channels is a parameter.
-/

namespace WsKit

open Base

/-- What a call does to the channel of the room behind its handle. -/
def RoomOp.onChannel : RoomOp → Option (Listening.Op Frame)
  | .subscribe _ => some .subscribe
  | .dropReceiver _ rx => some (.dropReceiver rx)
  | .broadcast _ frame => some (.send frame)
  | _ => none

/-- What the result of a call shows of the channel; a broadcast that fails has reached nobody. -/
def RoomOp.shows : RoomOp → RoomResult → Option (Listening.Obs Frame)
  | .subscribe _, .subscribed rx => some (.subscribed rx)
  | .dropReceiver _ rx, .dropped => some (.dropped rx)
  | .broadcast _ frame, .broadcasted result => some (.sent frame result.toOption)
  | _, _ => none

namespace RoomManager

/-- A manager in use: how many frames each receiver of each room has read or missed. -/
structure InUse where
  manager : RoomManager
  passed : RoomRef → ReceiverId → ℕ

/-- A call on the manager or on a handle, or a receiver of a room that asks for a frame. -/
inductive Use where
  | call (op : RoomOp)
  | recv (ref : RoomRef) (rx : ReceiverId)

/-- A call with its result, or what a receiver was told. -/
inductive Seen where
  | called (op : RoomOp) (result : RoomResult)
  | received (ref : RoomRef) (rx : ReceiverId) (answer : Received Frame)

/-- What is done with the channel of a room. -/
def Use.onRoom (ref : RoomRef) : Use → Option (Listening.Op Frame)
  | .call op => if op.handle = some ref then op.onChannel else none
  | .recv ref' rx => if ref' = ref then some (.recv rx) else none

/-- What is seen of the channel of a room. -/
def Seen.onRoom (ref : RoomRef) : Seen → Option (Listening.Obs Frame)
  | .called op result => if op.handle = some ref then op.shows result else none
  | .received ref' rx answer => if ref' = ref then some (.received rx answer) else none

/-- What a trace shows of the channel of a room. -/
def onRoom (ref : RoomRef) (tr : List Seen) : List (Listening.Obs Frame) :=
  tr.filterMap (Seen.onRoom ref)

/-- No receiver has read anything. -/
def InUse.start (m : RoomManager) : InUse := ⟨m, fun _ _ => 0⟩

/-- What one observation shows of a room. -/
theorem onRoom_singleton (ref : RoomRef) (o : Seen) : onRoom ref [o] = (o.onRoom ref).toList := by
  rw [onRoom]
  cases h : o.onRoom ref with
  | none => rw [List.filterMap_cons_none h]; rfl
  | some seen => rw [List.filterMap_cons_some h]; rfl

/-- What a room's trace shows of a run is read from left to right. -/
theorem onRoom_append (ref : RoomRef) (tr out : List Seen) :
    onRoom ref (tr ++ out) = onRoom ref tr ++ onRoom ref out := List.filterMap_append

section AnyChannel

variable [ChannelApi Frame]

/-- Calls and reads one after another. -/
def listeners : Machine InUse Use Seen where
  step s
    | .call op => (s.manager.call op).map fun called =>
        ({ s with manager := called.2 }, [.called op called.1])
    | .recv ref rx => (s.manager.room ref).bind fun room =>
        ((Listening.mk room.tx (s.passed ref)).recv rx).map fun got =>
          ({ s with passed := Function.update s.passed ref got.2.passed },
            [.received ref rx got.1])

/-- What a step does: a call of the manager, or a read by one receiver. -/
inductive Step (s : InUse) : Use → InUse → List Seen → Prop
  | call {op : RoomOp} {result : RoomResult} {m' : RoomManager}
      (hcall : s.manager.call op = some (result, m')) :
      Step s (.call op) { s with manager := m' } [.called op result]
  | recv {ref : RoomRef} {rx : ReceiverId} {room : Room} {got : Received Frame}
      {next : Listening Frame} (hroom : s.manager.room ref = some room)
      (hrecv : Listening.recv ⟨room.tx, s.passed ref⟩ rx = some (got, next)) :
      Step s (.recv ref rx) { s with passed := Function.update s.passed ref next.passed }
        [.received ref rx got]

/-- Every step is one of these. -/
theorem step_cases {s s' : InUse} {use : Use} {out : List Seen}
    (hstep : listeners.step s use = some (s', out)) : Step s use s' out := by
  cases use with
  | call op =>
    obtain ⟨⟨result, m'⟩, hcall, heq⟩ := Option.map_eq_some_iff.1 hstep
    obtain ⟨rfl, rfl⟩ := Prod.mk.inj heq
    exact .call hcall
  | recv ref rx =>
    obtain ⟨room, hroom, hstep⟩ := Option.bind_eq_some_iff.1 hstep
    obtain ⟨⟨got, next⟩, hrecv, heq⟩ := Option.map_eq_some_iff.1 hstep
    obtain ⟨rfl, rfl⟩ := Prod.mk.inj heq
    exact .recv hroom hrecv

/-! ### What a step does to one room -/

/-- A call on a handle is one operation on the channel, or none. -/
theorem moves_of_handle {m m' : RoomManager} {op : RoomOp} {result : RoomResult} {ref : RoomRef}
    (hop : op.handle = some ref) (hcall : m.call op = some (result, m')) {room : Room}
    (hroom : m.room ref = some room) (passed : ReceiverId → ℕ)
    {G : Listening.Op Frame → Prop} (hG : ∀ channelOp ∈ op.onChannel, G channelOp) :
    Listening.Moves G ⟨room.tx, passed⟩ ⟨(op.onRoom room).tx, passed⟩
      (op.shows result).toList := by
  cases op with
  | join used participantId name =>
    cases result <;> exact .stay
  | leave used participantId =>
    cases result <;> exact .stay
  | subscribe used =>
    cases hop
    obtain ⟨room', hroom', heq⟩ := Option.map_eq_some_iff.1 hcall
    obtain ⟨rfl, -⟩ := Prod.mk.inj heq
    rw [hroom, Option.some.injEq] at hroom'
    subst hroom'
    exact .op (hG .subscribe rfl) rfl
  | dropReceiver used rx =>
    cases hop
    obtain ⟨room', hroom', heq⟩ := Option.bind_eq_some_iff.1 hcall
    obtain ⟨hrx, heq⟩ := Option.ite_none_right_eq_some.1 heq
    obtain ⟨rfl, -⟩ := Prod.mk.inj (Option.some.inj heq)
    rw [hroom, Option.some.injEq] at hroom'
    subst hroom'
    exact .op (hG (.dropReceiver rx) rfl) (if_pos hrx)
  | broadcast used frame =>
    cases hop
    obtain ⟨sent, hsent, heq⟩ := Option.map_eq_some_iff.1 hcall
    obtain ⟨rfl, -⟩ := Prod.mk.inj heq
    obtain ⟨room', hroom', rfl⟩ := Option.map_eq_some_iff.1 hsent
    rw [hroom, Option.some.injEq] at hroom'
    subst hroom'
    refine .op (hG (.send frame) rfl) ?_
    obtain ⟨hnobody, hsend⟩ | ⟨hlive, hsend⟩ := room.tx.send_cases frame
    · simp only [Listening.step, hsend, RoomOp.onRoom, RoomOp.shows,
        Room.broadcast_of_receiverCount_eq_zero hnobody]
      rfl
    · simp only [Listening.step, hsend, RoomOp.onRoom, RoomOp.shows,
        Room.broadcast_of_receiverCount_ne_zero hlive]
      rfl
  | getOrCreate roomId => cases hop
  | getOrCreateWithCapacity roomId capacity => cases hop
  | get roomId => cases hop
  | remove roomId => cases hop
  | cleanup => cases hop
  | cleanupEmpty => cases hop
  | roomCount => cases hop
  | totalParticipants => cases hop

variable {s s' : InUse} {use : Use} {out : List Seen}

/-- The channel of a room makes the move of its own handle, if any, and keeps its capacity. -/
theorem moves_of_step (hstep : listeners.step s use = some (s', out)) {ref : RoomRef}
    {room : Room} (hroom : s.manager.room ref = some room) {G : Listening.Op Frame → Prop}
    (hG : ∀ op ∈ use.onRoom ref, G op) :
    ∃ room', s'.manager.room ref = some room' ∧ room'.tx.capacity = room.tx.capacity ∧
      Listening.Moves G ⟨room.tx, s.passed ref⟩
        ⟨room'.tx, s'.passed ref⟩ (onRoom ref out) := by
  cases step_cases hstep with
  | @call op result m' hcall =>
    refine ⟨_, room_of_call hcall hroom, ?_, ?_⟩
    · split
      · exact (onRoom_shell op room).2
      · rfl
    · rw [onRoom_singleton, Seen.onRoom]
      by_cases hop : op.handle = some ref
      · rw [if_pos hop, if_pos hop]
        refine moves_of_handle hop hcall hroom _ fun channelOp hmem => hG channelOp ?_
        rw [Use.onRoom, if_pos hop]
        exact hmem
      · rw [if_neg hop, if_neg hop]
        exact .stay
  | @recv ref' rx room' got next hroom' hrecv =>
    refine ⟨room, hroom, rfl, ?_⟩
    rw [onRoom_singleton, Seen.onRoom]
    by_cases href : ref' = ref
    · subst href
      rw [hroom, Option.some.injEq] at hroom'
      subst hroom'
      obtain ⟨_, _, hgot⟩ := Option.map_eq_some_iff.1 hrecv
      obtain ⟨rfl, rfl⟩ := Prod.mk.inj hgot
      rw [if_pos rfl]
      refine .op (hG (.recv rx) (if_pos rfl)) ?_
      rw [Listening.step, hrecv]
      simp only [Option.map_some, Function.update_self]
      rfl
    · rw [if_neg href]
      simp only [Function.update_of_ne (Ne.symm href)]
      exact .stay

/-- A room that is new has a new channel, and nothing was seen of it. -/
theorem listening_of_new (hstep : listeners.step s use = some (s', out)) {ref : RoomRef}
    (hnone : s.manager.room ref = none) :
    onRoom ref out = [] ∧ s'.passed ref = s.passed ref ∧
      ∀ room, s'.manager.room ref = some room → ∃ capacity, room.tx = ⟨capacity, 0, ∅, []⟩ := by
  cases step_cases hstep with
  | @call op result m' hcall =>
    refine ⟨?_, rfl, fun room hroom => ?_⟩
    · rw [onRoom_singleton, Seen.onRoom, if_neg]
      · rfl
      · intro hop
        obtain ⟨room, _, hroom, _⟩ := call_of_handle hop hcall
        rw [hnone] at hroom
        cases hroom
    · obtain hafter | ⟨-, roomId, capacity, hafter⟩ := roomStep_of_call hcall ref
      · rw [hnone, Option.map_none] at hafter
        rw [hafter] at hroom
        cases hroom
      · rw [hafter, Option.some.injEq] at hroom
        exact ⟨capacity, by rw [← hroom]⟩
  | @recv ref' rx room' got next hroom' hrecv =>
    have href : ref' ≠ ref := by
      rintro rfl
      rw [hnone] at hroom'
      cases hroom'
    refine ⟨?_, Function.update_of_ne href.symm _ _, fun room hroom => ?_⟩
    · rw [onRoom_singleton, Seen.onRoom, if_neg href]
      rfl
    · rw [hnone] at hroom
      cases hroom

/-! ### Runs -/

/-- Every room's receivers are accounted for, and nothing was seen of rooms that do not exist. -/
structure Heard (s : InUse) (tr : List Seen) : Prop where
  accounted : ∀ ref room, s.manager.room ref = some room →
    Listening.Accounted ⟨room.tx, s.passed ref⟩ (onRoom ref tr)
  silent : ∀ ref, s.manager.room ref = none → onRoom ref tr = [] ∧ s.passed ref = fun _ => 0

omit [ChannelApi Frame] in
/-- A manager that hosts nothing has nothing to account for. -/
theorem heard_start (defaultCapacity : ℕ) (stats : Option StatsRecorder) :
    Heard (.start (.empty defaultCapacity stats)) [] where
  accounted ref room hroom := by cases hroom
  silent _ _ := ⟨rfl, rfl⟩

/-- Every step keeps the account of every room. -/
theorem Heard.step {tr : List Seen} (h : Heard s tr)
    (hstep : listeners.step s use = some (s', out)) : Heard s' (tr ++ out) where
  accounted ref room hroom := by
    rw [onRoom_append]
    cases hbefore : s.manager.room ref with
    | some before =>
      obtain ⟨room', hroom', -, hmoves⟩ :=
        moves_of_step hstep hbefore (G := fun _ => True) (fun _ _ => trivial)
      rw [hroom, Option.some.injEq] at hroom'
      subst hroom'
      exact (h.accounted ref before hbefore).moves hmoves
    | none =>
      obtain ⟨hout, hpassed, hnew⟩ := listening_of_new hstep hbefore
      obtain ⟨capacity, htx⟩ := hnew room hroom
      rw [hout, hpassed, (h.silent ref hbefore).1, (h.silent ref hbefore).2, htx]
      exact Listening.accounted_start capacity
  silent ref hnone := by
    rw [onRoom_append]
    cases hbefore : s.manager.room ref with
    | some before =>
      obtain ⟨room', hroom', -⟩ :=
        moves_of_step hstep hbefore (G := fun _ => True) (fun _ _ => trivial)
      rw [hnone] at hroom'
      cases hroom'
    | none =>
      obtain ⟨hout, hpassed, -⟩ := listening_of_new hstep hbefore
      rw [hout, hpassed, (h.silent ref hbefore).1]
      exact ⟨rfl, (h.silent ref hbefore).2⟩

/-- Nobody broadcasts on the handle while the receiver has as many frames unread as the room's
capacity. -/
def KeepsUp (ref : RoomRef) (rx : ReceiverId) (s : InUse) (_ : List Seen) (use : Use) : Prop :=
  ∀ room ∈ s.manager.room ref, ∀ op ∈ use.onRoom ref,
    Listening.KeepsUp room.tx.capacity rx ⟨room.tx, s.passed ref⟩ op

instance (ref : RoomRef) (rx : ReceiverId) (s : InUse) (tr : List Seen) (use : Use) :
    Decidable (KeepsUp ref rx s tr use) :=
  inferInstanceAs (Decidable (∀ room ∈ s.manager.room ref, ∀ op ∈ use.onRoom ref, _))

/-- A receiver that keeps up is up to date. -/
theorem upToDate_of_run {ref : RoomRef}
    {rx : ReceiverId} {defaultCapacity : ℕ} {stats : Option StatsRecorder} {uses : List Use}
    {tr : List Seen}
    (hrun : listeners.run uses (.start (.empty defaultCapacity stats), []) = some (s, tr))
    (hkeeps : listeners.Meets (KeepsUp ref rx) uses
      (.start (.empty defaultCapacity stats), [])) {room : Room}
    (hroom : s.manager.room ref = some room) :
    Listening.UpToDate room.tx.capacity rx ⟨room.tx, s.passed ref⟩ (onRoom ref tr) := by
  have hinv := Machine.run_induct
    (P := fun s tr => Heard s tr ∧ ∀ room, s.manager.room ref = some room →
      Listening.UpToDate room.tx.capacity rx ⟨room.tx, s.passed ref⟩ (onRoom ref tr))
    (fun s tr use s' out h hkeeps hstep => by
      obtain ⟨hheard, hold⟩ := h
      refine ⟨hheard.step hstep, fun room hroom => ?_⟩
      rw [onRoom_append]
      cases hbefore : s.manager.room ref with
      | some before =>
        obtain ⟨room', hroom', hcapacity, hmoves⟩ :=
          moves_of_step hstep hbefore (hkeeps before hbefore)
        rw [hroom, Option.some.injEq] at hroom'
        subst hroom'
        rw [hcapacity]
        exact (hold before hbefore).moves hmoves
      | none =>
        obtain ⟨hout, hpassed, hnew⟩ := listening_of_new hstep hbefore
        obtain ⟨capacity, htx⟩ := hnew room hroom
        rw [hout, hpassed, (hheard.silent ref hbefore).1, (hheard.silent ref hbefore).2, htx]
        exact Listening.upToDate_start capacity rx)
    hrun hkeeps ⟨heard_start defaultCapacity stats, fun room hroom => by cases hroom⟩
  exact hinv.2 room hroom

/-- In every run of a manager, mapped or not, every room's receivers are told, in order and without
repetition, of a beginning of what was broadcast on the room's own handle while they lived; what
they did not read was counted as missed. The receivers reached by these broadcasts are as many as
the frames read, missed and left unread. A receiver that never has more unread than the room's
capacity reads every frame. -/
theorem receivers_accounted (defaultCapacity : ℕ) (stats : Option StatsRecorder) {uses : List Use} {tr : List Seen}
    (hrun : listeners.run uses (.start (.empty defaultCapacity stats), []) = some (s, tr))
    {ref : RoomRef} {room : Room} (hroom : s.manager.room ref = some room) :
    (∀ rx, s.passed ref rx ≤ (Listening.offered (onRoom ref tr) rx).length ∧
      Listening.Accounts (Listening.reads (onRoom ref tr) rx)
        ((Listening.offered (onRoom ref tr) rx).take (s.passed ref rx))) ∧
    ∑ rx ∈ Finset.range room.tx.created,
      ((Listening.messages (Listening.reads (onRoom ref tr) rx)).length +
        Listening.missed (Listening.reads (onRoom ref tr) rx) +
        ((Listening.offered (onRoom ref tr) rx).length - s.passed ref rx)) =
      Listening.reached (onRoom ref tr) ∧
    ∀ rx, listeners.Meets (KeepsUp ref rx) uses
        (.start (.empty defaultCapacity stats), []) →
      Listening.messages (Listening.reads (onRoom ref tr) rx) =
        (Listening.offered (onRoom ref tr) rx).take (s.passed ref rx) := by
  have hheard := Machine.run_induct_all (P := Heard) (fun _ _ _ _ _ h hstep => h.step hstep) hrun
    (heard_start defaultCapacity stats)
  have haccounted := hheard.accounted ref room hroom
  refine ⟨fun rx => ⟨haccounted.passed rx, haccounted.accounts rx⟩, haccounted.total_eq, ?_⟩
  intro rx hkeeps
  exact (upToDate_of_run hrun hkeeps hroom).messages_eq

end AnyChannel

/-- A room of capacity one, made again after it was removed: the first one's receiver reads late,
and the second one's at once. -/
def twoLobbies : List Use :=
  [.call (.getOrCreate ['l']), .call (.subscribe 0), .call (.remove ['l']),
    .call (.getOrCreate ['l']), .call (.subscribe 1), .call (.broadcast 0 (.binary [0])),
    .call (.broadcast 1 (.binary [1])), .recv 1 0, .call (.broadcast 0 (.binary [2])),
    .call (.broadcast 1 (.binary [3])), .recv 1 0, .recv 0 0, .recv 0 0]

/-- The late receiver has missed a frame, the other one none. -/
theorem receivers_accounted_twoLobbies : ∃ s tr room,
    listeners.run twoLobbies (.start (.empty 1 none), []) = some (s, tr) ∧
    s.manager.room 1 = some room ∧
    Listening.reads (onRoom 0 tr) 0 = [.lagged 1, .message (.binary [2])] ∧
    Listening.messages (Listening.reads (onRoom 1 tr) 0) =
      (Listening.offered (onRoom 1 tr) 0).take (s.passed 1 0) := by
  have hseen : (listeners.run twoLobbies (.start (.empty 1 none), [])).map
      (fun c => ((c.1.manager.room 1).isSome, Listening.reads (onRoom 0 c.2) 0)) =
        some (true, [.lagged 1, .message (.binary [2])]) := by decide
  obtain ⟨⟨s, tr⟩, hrun, heq⟩ := Option.map_eq_some_iff.1 hseen
  obtain ⟨hsome, hreads⟩ := Prod.mk.inj heq
  obtain ⟨room, hroom⟩ := Option.isSome_iff_exists.1 hsome
  have haccounted := receivers_accounted 1 none hrun hroom
  exact ⟨s, tr, room, hrun, hroom, hreads, haccounted.2.2 0 (by decide)⟩

end RoomManager

end WsKit
