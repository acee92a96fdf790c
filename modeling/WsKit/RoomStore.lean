import WsKit.RoomManager
import Mathlib.Algebra.BigOperators.Group.Finset.Basic
import Mathlib.Data.Finmap

/-!
# What a room manager is for

A store hosts rooms, each with an id, a roster and live receivers. Its calls are stated by
what they change: the manager's map, heap and recorder do not appear.
-/

namespace WsKit

open Base

/-- A room as its users see it. -/
structure StoredRoom where
  id : Str
  roster : Finmap fun _ : UInt32 => Str
  live : Finset ReceiverId

namespace StoredRoom

/-- Nobody participates and nobody listens. -/
def Idle (r : StoredRoom) : Prop := r.roster.keys = ∅ ∧ r.live = ∅

/-- Nobody participates. -/
def Deserted (r : StoredRoom) : Prop := r.roster.keys = ∅

end StoredRoom

/-- All rooms ever made, and those the store hosts. -/
structure Store where
  room : RoomRef → Option StoredRoom
  hosted : Finset RoomRef

namespace Store

/-- A store without rooms. -/
def empty : Store := ⟨fun _ => none, ∅⟩

/-- The store hosts this room under this id. -/
def Hosts (st : Store) (roomId : Str) (ref : RoomRef) : Prop :=
  ref ∈ st.hosted ∧ ∃ r, st.room ref = some r ∧ r.id = roomId

/-- A room changes. -/
def setRoom (st : Store) (ref : RoomRef) (r : StoredRoom) : Store :=
  { st with room := Function.update st.room ref (some r) }

/-- A new room is hosted. -/
def host (st : Store) (ref : RoomRef) (roomId : Str) : Store :=
  { st.setRoom ref ⟨roomId, ∅, ∅⟩ with hosted := insert ref st.hosted }

open Classical in
/-- The hosted rooms that satisfy a predicate. -/
noncomputable def hostedWhere (st : Store) (P : StoredRoom → Prop) : Finset RoomRef :=
  st.hosted.filter fun ref => ∃ r, st.room ref = some r ∧ P r

open Classical in
/-- Membership in the selected rooms. -/
theorem mem_hostedWhere {st : Store} {P : StoredRoom → Prop} {ref : RoomRef} :
    ref ∈ st.hostedWhere P ↔ ref ∈ st.hosted ∧ ∃ r, st.room ref = some r ∧ P r := by
  rw [hostedWhere, Finset.mem_filter]

/-- Only hosted rooms are selected. -/
theorem hostedWhere_subset (st : Store) (P : StoredRoom → Prop) :
    st.hostedWhere P ⊆ st.hosted := fun _ href => (mem_hostedWhere.1 href).1

/-- These rooms are no longer hosted. -/
def release (st : Store) (refs : Finset RoomRef) : Store := { st with hosted := st.hosted \ refs }

/-- The number of participants of a room. -/
def rosterSize (st : Store) (ref : RoomRef) : ℕ :=
  (st.room ref).elim 0 fun r => r.roster.keys.card

/-- Writing back a room as it is changes nothing. -/
theorem setRoom_self {st : Store} {ref : RoomRef} {r : StoredRoom} (h : st.room ref = some r) :
    st.setRoom ref r = st := by
  rw [setRoom, ← h, Function.update_eq_self]

/-- Calls that may make a room, with the capacity it would get. -/
inductive Creates (defaultCapacity : ℕ) : RoomOp → Str → ℕ → Prop
  | default (roomId : Str) : Creates defaultCapacity (.getOrCreate roomId) roomId defaultCapacity
  | custom (roomId : Str) (capacity : ℕ) :
      Creates defaultCapacity (.getOrCreateWithCapacity roomId capacity) roomId capacity

variable [ChannelApi Frame]

/-- What a call may return and do to the store. A call panics, without effect, only when it has
to make a room with a capacity that channels do not accept. -/
inductive Step (defaultCapacity : ℕ) (st : Store) : RoomOp → RoomResult → Store → Prop
  | reuse {op roomId capacity ref} (hop : Creates defaultCapacity op roomId capacity)
      (h : st.Hosts roomId ref) : Step defaultCapacity st op (.room ref) st
  | create {op roomId capacity ref} (hop : Creates defaultCapacity op roomId capacity)
      (h : ∀ old, ¬ st.Hosts roomId old) (hcapacity : AcceptedCapacity Frame capacity)
      (hfresh : st.room ref = none) :
      Step defaultCapacity st op (.room ref) (st.host ref roomId)
  | panic {op roomId capacity} (hop : Creates defaultCapacity op roomId capacity)
      (h : ∀ old, ¬ st.Hosts roomId old) (hcapacity : ¬ AcceptedCapacity Frame capacity) :
      Step defaultCapacity st op .panicked st
  | get {roomId ref} (h : st.Hosts roomId ref) :
      Step defaultCapacity st (.get roomId) (.found (some ref)) st
  | getMissing {roomId} (h : ∀ ref, ¬ st.Hosts roomId ref) :
      Step defaultCapacity st (.get roomId) (.found none) st
  | remove {roomId ref} (h : st.Hosts roomId ref) :
      Step defaultCapacity st (.remove roomId) (.found (some ref)) (st.release {ref})
  | removeMissing {roomId} (h : ∀ ref, ¬ st.Hosts roomId ref) :
      Step defaultCapacity st (.remove roomId) (.found none) st
  | cleanup : Step defaultCapacity st .cleanup
      (.count (st.hostedWhere StoredRoom.Idle).card) (st.release (st.hostedWhere StoredRoom.Idle))
  | cleanupEmpty : Step defaultCapacity st .cleanupEmpty
      (.count (st.hostedWhere StoredRoom.Deserted).card)
      (st.release (st.hostedWhere StoredRoom.Deserted))
  | roomCount : Step defaultCapacity st .roomCount (.count st.hosted.card) st
  | totalParticipants :
      Step defaultCapacity st .totalParticipants (.count (st.hosted.sum st.rosterSize)) st
  | join {ref r} (participantId : UInt32) (name : Str) (h : st.room ref = some r) :
      Step defaultCapacity st (.join ref participantId name) .joined
        (st.setRoom ref { r with roster := r.roster.insert participantId name })
  | leave {ref r} (participantId : UInt32) (h : st.room ref = some r) :
      Step defaultCapacity st (.leave ref participantId)
        (.left (decide (participantId ∈ r.roster)))
        (st.setRoom ref { r with roster := r.roster.erase participantId })
  | subscribe {ref r rx} (h : st.room ref = some r) (hfresh : rx ∉ r.live) :
      Step defaultCapacity st (.subscribe ref) (.subscribed rx)
        (st.setRoom ref { r with live := insert rx r.live })
  | dropReceiver {ref r rx} (h : st.room ref = some r) (hlive : rx ∈ r.live) :
      Step defaultCapacity st (.dropReceiver ref rx) .dropped
        (st.setRoom ref { r with live := r.live.erase rx })
  | broadcast {ref r} (frame : Frame) (h : st.room ref = some r) (hlive : r.live.Nonempty) :
      Step defaultCapacity st (.broadcast ref frame) (.broadcasted (.ok r.live.card)) st
  | broadcastNobody {ref r} (frame : Frame) (h : st.room ref = some r) (hnone : r.live = ∅) :
      Step defaultCapacity st (.broadcast ref frame)
        (.broadcasted (.error (.failed .broadcastFull))) st

/-- Asking for a room returns the hosted one, or hosts a room never made before. -/
theorem Step.room_of_creates {defaultCapacity : ℕ} {st st' : Store} {op : RoomOp} {roomId : Str}
    {capacity : ℕ} {ref : RoomRef} (hop : Creates defaultCapacity op roomId capacity)
    (h : Step defaultCapacity st op (.room ref) st') :
    (st.Hosts roomId ref ∧ st' = st) ∨
      ((∀ old, ¬ st.Hosts roomId old) ∧ st.room ref = none ∧ st' = st.host ref roomId) := by
  cases hop with
  | default roomId =>
    cases h with
    | reuse hop h => cases hop; exact Or.inl ⟨h, rfl⟩
    | create hop h _ hfresh => cases hop; exact Or.inr ⟨h, hfresh, rfl⟩
  | custom roomId capacity =>
    cases h with
    | reuse hop h => cases hop; exact Or.inl ⟨h, rfl⟩
    | create hop h _ hfresh => cases hop; exact Or.inr ⟨h, hfresh, rfl⟩

/-- What the store allows to be seen, and where it leads. -/
inductive Run (defaultCapacity : ℕ) : List (RoomOp × RoomResult) → Store → Prop
  | nil : Run defaultCapacity [] empty
  | snoc {tr st op result st'} (h : Run defaultCapacity tr st)
      (hstep : Step defaultCapacity st op result st') :
      Run defaultCapacity (tr ++ [(op, result)]) st'

end Store

end WsKit
