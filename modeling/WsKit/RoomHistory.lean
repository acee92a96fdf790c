import WsKit.Base.Linearization
import WsKit.Base.Simulation
import WsKit.RoomAgreement
import WsKit.RoomRefinement

/-!
# Overlapping calls on a room manager

The calls of threads that share a manager can be put in an order in which each of them gives the
answer it gave, as if they had been made on the room store one after another. A lookup that finds
its room takes effect at once, and one that has to panic where it finds none; a creation takes
effect at the insert-or-get, and a removal where it takes the room from the map. A cleanup is not
one call of the store: each of its removals counts as a removal of that id.
-/

namespace WsKit

open Base

namespace Store

/-- The store as those see it who know these rooms. -/
def known (st : Store) (refs : List RoomRef) : Store :=
  { st with room := fun ref => if ref ∈ refs then st.room ref else none }

/-- A known room is as it is. -/
theorem known_room {refs : List RoomRef} {ref : RoomRef} (st : Store) (h : ref ∈ refs) :
    (st.known refs).room ref = st.room ref := if_pos h

/-- A change of a known room is known. -/
theorem known_setRoom {refs : List RoomRef} {ref : RoomRef} (st : Store) (h : ref ∈ refs)
    (r : StoredRoom) : (st.setRoom ref r).known refs = (st.known refs).setRoom ref r := by
  refine congrArg (Store.mk · _) (funext fun other => ?_)
  simp only [setRoom, known, Function.update_apply]
  by_cases heq : other = ref
  · rw [if_pos heq, if_pos heq, heq, if_pos h]
  · rw [if_neg heq, if_neg heq]

/-- A vacant room that is hosted is known from then on. -/
theorem known_host {st : Store} {ref : RoomRef} {roomId : Str}
    (h : st.room ref = some ⟨roomId, ∅, ∅⟩) (refs : List RoomRef) :
    known { st with hosted := insert ref st.hosted } (ref :: refs) =
      (st.known refs).host ref roomId := by
  refine congrArg (Store.mk · _) (funext fun other => ?_)
  simp only [setRoom, known, Function.update_apply, List.mem_cons]
  by_cases heq : other = ref
  · rw [if_pos (Or.inl heq), if_pos heq, heq, h]
  · rw [if_neg heq]
    exact if_congr (or_iff_right heq) rfl rfl

/-- Releasing rooms is known. -/
theorem known_release (st : Store) (refs : List RoomRef) (released : Finset RoomRef) :
    (st.release released).known refs = (st.known refs).release released := rfl

/-- When the hosted rooms are known, they are hosted under the same ids. -/
theorem known_hosts {st : Store} {refs : List RoomRef} (h : ∀ ref ∈ st.hosted, ref ∈ refs)
    {roomId : Str} {ref : RoomRef} : (st.known refs).Hosts roomId ref ↔ st.Hosts roomId ref := by
  refine and_congr_right fun hmem => ?_
  rw [known_room st (h ref hmem)]

variable [ChannelApi Frame]

/-- A call on a handle says what becomes of the room behind it, and it does so wherever that room is
the same. -/
theorem Step.transfer {defaultCapacity : ℕ} {st st' other : Store} {op : RoomOp}
    {result : RoomResult} {ref : RoomRef} (hop : op.handle = some ref)
    (h : Step defaultCapacity st op result st') (hsame : other.room ref = st.room ref) :
    ∃ r, st' = st.setRoom ref r ∧ Step defaultCapacity other op result (other.setRoom ref r) := by
  cases h with
  | join participantId name h =>
    cases hop
    exact ⟨_, rfl, .join participantId name (hsame.trans h)⟩
  | leave participantId h =>
    cases hop
    exact ⟨_, rfl, .leave participantId (hsame.trans h)⟩
  | subscribe h hfresh =>
    cases hop
    exact ⟨_, rfl, .subscribe (hsame.trans h) hfresh⟩
  | dropReceiver h hlive =>
    cases hop
    exact ⟨_, rfl, .dropReceiver (hsame.trans h) hlive⟩
  | broadcast frame h hlive =>
    cases hop
    refine ⟨_, (setRoom_self h).symm, ?_⟩
    rw [setRoom_self (hsame.trans h)]
    exact .broadcast frame (hsame.trans h) hlive
  | broadcastNobody frame h hnone =>
    cases hop
    refine ⟨_, (setRoom_self h).symm, ?_⟩
    rw [setRoom_self (hsame.trans h)]
    exact .broadcastNobody frame (hsame.trans h) hnone
  | reuse hop' => cases hop' <;> cases hop
  | create hop' => cases hop' <;> cases hop
  | panic hop' => cases hop' <;> cases hop
  | get => cases hop
  | getMissing => cases hop
  | remove => cases hop
  | removeMissing => cases hop
  | cleanup => cases hop
  | cleanupEmpty => cases hop
  | roomCount => cases hop
  | totalParticipants => cases hop

end Store

namespace RoomThreads

variable {ι : Type*}

/-- The store that a manager stands for, as the holders of handles see it. -/
def State.store (s : State ι) : Store := s.manager.toStore.known s.handles

/-- The call on the store that a call makes; a cleanup makes none itself. -/
def Call.op : Call → Option RoomOp
  | .getOrCreate roomId => some (.getOrCreate roomId)
  | .getOrCreateWithCapacity roomId capacity => some (.getOrCreateWithCapacity roomId capacity)
  | .remove roomId => some (.remove roomId)
  | .sweep _ => none

/-- The call that an event begins. -/
def Event.seen : Event ι → List (Seen (Option ι) RoomOp RoomResult)
  | .call t c => c.op.toList.map (.called (some t))
  | .advance _ => []
  | .use _ => []

/-- What an observation in this state of the manager says of calls. The holders of handles make
their calls as nobody in particular. -/
def Obs.seen (m : RoomManager) : Obs ι → List (Seen (Option ι) RoomOp RoomResult)
  | .panicked t => [.answered (some t) .panicked]
  | .inserted _ _ _ _ => []
  | .lost _ _ _ => []
  | .returned t _ ref => [.answered (some t) (.room ref)]
  | .removed t _ ref => [.answered (some t) (.found ref)]
  | .tookOut t _ roomId _ =>
    [.called (some t) (.remove roomId), .answered (some t) (.found (m.get roomId))]
  | .missed t _ roomId => [.called (some t) (.remove roomId), .answered (some t) (.found none)]
  | .swept _ _ _ _ => []
  | .used op result => [.called none op, .answered none result]

variable [DecidableEq ι]

/-! ### What the holders of handles see -/

omit [DecidableEq ι] in
/-- Steps that leave the map, the rooms and the known handles alone leave the store alone. -/
theorem store_congr {s s' : State ι} (hrooms : s'.manager.rooms = s.manager.rooms)
    (hheap : s'.manager.heap = s.manager.heap) (hhandles : ∀ ref, ref ∈ s'.handles ↔ ref ∈ s.handles) :
    s'.store = s.store := by
  simp only [State.store, Store.known, RoomManager.toStore, RoomManager.room, hrooms, hheap, hhandles]

/-- What is known of the rooms: the mapped ones and those about to be returned were handed out, and
a candidate is a new room that only its thread knows. -/
structure Published (s : State ι) : Prop where
  wellFormed : s.manager.WellFormed
  made : ∀ ref ∈ s.handles, ref < s.manager.heap.length
  mapped : ∀ roomId ref, s.manager.get roomId = some ref → ref ∈ s.handles
  closing : ∀ t roomId ref, s.pc t = .closingRemoved roomId ref → ref ∈ s.handles
  unknown : ∀ t roomId capacity candidate, (s.pc t).candidate = some (roomId, capacity, candidate) →
    s.manager.room candidate = some ⟨roomId, ⟨capacity, 0, ∅, []⟩, ∅⟩ ∧ candidate ∉ s.handles
  distinct : ∀ t u x y, (s.pc t).candidate = some x → (s.pc u).candidate = some y →
    x.2.2 = y.2.2 → t = u

/-- A move to a point that has no new candidate gives no thread a candidate. -/
theorem candidate_of_move {s : State ι} {t : ι} {pc : Pc}
    (hcandidate : pc.candidate = none ∨ pc.candidate = (s.pc t).candidate) {u : ι}
    {x : Str × ℕ × RoomRef} (h : ((s.goto t pc).pc u).candidate = some x) :
    (s.pc u).candidate = some x := by
  rw [State.goto_pc] at h
  split at h
  · next heq =>
    obtain hnone | hsame := hcandidate
    · rw [hnone] at h
      cases h
    · rw [heq, ← hsame]
      exact h
  · exact h

/-- Steps of one thread that make no room and map none keep what is known. -/
theorem Published.move {s s' : State ι} (h : Published s) {t : ι} {pc : Pc}
    (hpc : s'.pc = (s.goto t pc).pc)
    (hcandidate : pc.candidate = none ∨ pc.candidate = (s.pc t).candidate)
    (hclosing : ∀ roomId ref, pc = .closingRemoved roomId ref → ref ∈ s.handles)
    (hget : ∀ roomId ref, s'.manager.get roomId = some ref → s.manager.get roomId = some ref)
    (hheap : s'.manager.heap = s.manager.heap)
    (hhandles : ∀ ref, ref ∈ s'.handles ↔ ref ∈ s.handles) : Published s' := by
  have hroom : ∀ ref, s'.manager.room ref = s.manager.room ref := fun ref => by
    rw [RoomManager.room, hheap]
    rfl
  refine ⟨⟨?_, ?_⟩, ?_, ?_, ?_, ?_, ?_⟩
  · intro roomId ref hmapped
    rw [hroom]
    exact h.wellFormed.mapped roomId ref (hget roomId ref hmapped)
  · intro ref room hmade
    rw [hroom] at hmade
    exact h.wellFormed.channels ref room hmade
  · intro ref href
    rw [hheap]
    exact h.made ref ((hhandles ref).1 href)
  · intro roomId ref hmapped
    exact (hhandles ref).2 (h.mapped roomId ref (hget roomId ref hmapped))
  · intro u roomId ref hu
    rw [hpc, State.goto_pc] at hu
    split at hu
    · exact (hhandles ref).2 (hclosing roomId ref hu)
    · exact (hhandles ref).2 (h.closing u roomId ref hu)
  · intro u roomId capacity candidate hu
    rw [hpc] at hu
    rw [hroom, hhandles]
    exact h.unknown u roomId capacity candidate (candidate_of_move hcandidate hu)
  · intro u v x y hu hv
    rw [hpc] at hu hv
    exact h.distinct u v x y (candidate_of_move hcandidate hu) (candidate_of_move hcandidate hv)

/-- Steps of one thread that leave the map, the rooms and the known handles alone keep what is
known. -/
theorem Published.stay {s s' : State ι} (h : Published s) {t : ι} {pc : Pc}
    (hpc : s'.pc = (s.goto t pc).pc)
    (hcandidate : pc.candidate = none ∨ pc.candidate = (s.pc t).candidate)
    (hclosing : ∀ roomId ref, pc = .closingRemoved roomId ref → ref ∈ s.handles)
    (hrooms : s'.manager.rooms = s.manager.rooms) (hheap : s'.manager.heap = s.manager.heap)
    (hhandles : ∀ ref, ref ∈ s'.handles ↔ ref ∈ s.handles) : Published s' := by
  refine h.move hpc hcandidate hclosing (fun roomId ref hget => ?_) hheap hhandles
  rw [RoomManager.get, hrooms] at hget
  exact hget

/-- So does a thread that returns what is known. -/
theorem Published.finish {s s' : State ι} (h : Published s) {t : ι}
    (hpc : s'.pc = (s.goto t .idle).pc) (hrooms : s'.manager.rooms = s.manager.rooms)
    (hheap : s'.manager.heap = s.manager.heap)
    (hhandles : ∀ ref, ref ∈ s'.handles ↔ ref ∈ s.handles) : Published s' :=
  h.stay hpc (Or.inl rfl) (fun _ _ heq => by cases heq) hrooms hheap hhandles

/-- The candidate that is inserted is known from then on. -/
theorem Published.insert {s : State ι} (h : Published s) {t : ι} {roomId : Str} {capacity : ℕ}
    {candidate : RoomRef} (hpc : s.pc t = .inserting roomId capacity candidate) :
    Published (((s.withManager { s.manager with
      rooms := s.manager.rooms.insert roomId candidate }).handOut candidate).goto t .idle) := by
  have hmine : (s.pc t).candidate = some (roomId, capacity, candidate) := by rw [hpc]; rfl
  obtain ⟨hroom, _⟩ := h.unknown t roomId capacity candidate hmine
  refine ⟨⟨?_, h.wellFormed.channels⟩, ?_, ?_, ?_, ?_, ?_⟩
  · intro other ref hget
    change AList.lookup other (s.manager.rooms.insert roomId candidate) = some ref at hget
    rw [Map.lookup_insert] at hget
    split at hget
    · next heq =>
      rw [← Option.some.inj hget]
      exact ⟨_, hroom, heq.symm⟩
    · exact h.wellFormed.mapped other ref hget
  · intro ref href
    obtain rfl | href := List.mem_cons.1 href
    · exact (List.getElem?_eq_some_iff.1 hroom).1
    · exact h.made ref href
  · intro other ref hget
    change AList.lookup other (s.manager.rooms.insert roomId candidate) = some ref at hget
    rw [Map.lookup_insert] at hget
    split at hget
    · rw [← Option.some.inj hget]
      exact List.mem_cons_self
    · exact List.mem_cons_of_mem _ (h.mapped other ref hget)
  · intro u other ref hu
    rw [State.goto_pc] at hu
    split at hu
    · cases hu
    · exact List.mem_cons_of_mem _ (h.closing u other ref hu)
  · intro u other cap c hu
    obtain ⟨hu, hne⟩ := candidate_of_goto rfl u _ hu
    obtain ⟨hplace, hunknown⟩ := h.unknown u other cap c hu
    refine ⟨hplace, fun hknown => ?_⟩
    obtain heq | hknown := List.mem_cons.1 hknown
    · exact hne (h.distinct u t _ _ hu hmine heq)
    · exact hunknown hknown
  · intro u v x y hu hv
    exact h.distinct u v x y (candidate_of_goto rfl u x hu).1 (candidate_of_goto rfl v y hv).1

omit [DecidableEq ι] in
/-- Ids are hosted as they are mapped. -/
theorem Published.hosts_iff {s : State ι} (h : Published s) {roomId : Str} {ref : RoomRef} :
    s.store.Hosts roomId ref ↔ s.manager.get roomId = some ref := by
  have hknown : ∀ ref ∈ s.manager.toStore.hosted, ref ∈ s.handles := by
    intro ref hmem
    obtain ⟨roomId, hget⟩ := RoomManager.mem_hosted.1 hmem
    exact h.mapped roomId ref hget
  exact (Store.known_hosts hknown).trans h.wellFormed.hosts_iff

omit [DecidableEq ι] in
/-- Nothing is hosted under an id that is not mapped. -/
theorem Published.not_hosts {s : State ι} (h : Published s) {roomId : Str}
    (hget : s.manager.get roomId = none) (ref : RoomRef) : ¬ s.store.Hosts roomId ref := by
  rw [h.hosts_iff, hget]
  exact Option.some_ne_none ref ∘ Eq.symm

/-- Mapping a candidate hosts it. -/
theorem Published.store_insert {s : State ι} (h : Published s) {t : ι} {roomId : Str} {capacity : ℕ}
    {candidate : RoomRef} (hpc : s.pc t = .inserting roomId capacity candidate)
    (hget : s.manager.get roomId = none) :
    (((s.withManager { s.manager with
      rooms := s.manager.rooms.insert roomId candidate }).handOut candidate).goto t .idle).store =
      s.store.host candidate roomId ∧ s.store.room candidate = none := by
  obtain ⟨hroom, hunknown⟩ := h.unknown t roomId capacity candidate (by rw [hpc]; rfl)
  refine ⟨?_, if_neg hunknown⟩
  refine Eq.trans ?_ (Store.known_host (RoomManager.toStore_room hroom) s.handles)
  refine congrArg (Store.known · (candidate :: s.handles)) (congrArg (Store.mk _) ?_)
  change (Map.values (s.manager.rooms.insert roomId candidate)).toFinset = _
  rw [Map.values_insert (AList.lookup_eq_none.1 hget), List.toFinset_cons]
  rfl

omit [DecidableEq ι] in
/-- A known handle that is returned again tells nobody anything new. -/
theorem mem_handOut {s : State ι} {ref : RoomRef} (h : ref ∈ s.handles) (other : RoomRef) :
    other ∈ (s.handOut ref).handles ↔ other ∈ s.handles := by
  refine List.mem_cons.trans (or_iff_right_of_imp ?_)
  rintro rfl
  exact h

/-- Taking a room from the map changes nothing else that is known. -/
theorem Published.erase {s : State ι} (h : Published s) {t : ι} {pc : Pc} (roomId : Str)
    (hcandidate : pc.candidate = none)
    (hclosing : ∀ roomId ref, pc = .closingRemoved roomId ref → ref ∈ s.handles) :
    Published ((s.withManager { s.manager with
      rooms := s.manager.rooms.erase roomId }).goto t pc) := by
  refine h.move rfl (Or.inl hcandidate) hclosing ?_ rfl fun _ => Iff.rfl
  intro other ref hget
  exact (Map.lookup_erase_eq_some_iff.1 hget).2

omit [DecidableEq ι] in
/-- On an empty manager nothing has been called. -/
theorem published_start (defaultCapacity : ℕ) (stats : Option StatsRecorder) :
    Published (start (.empty defaultCapacity stats) : State ι) := by
  refine ⟨RoomManager.wellFormed_empty defaultCapacity stats, ?_, ?_, ?_, ?_, ?_⟩
  · intro ref href
    cases href
  · intro roomId ref hget
    cases hget
  · intro t roomId ref hpc
    cases hpc
  · intro t roomId capacity candidate hpc
    cases hpc
  · intro t u x y hx
    cases hx

section AnyChannel

variable [ChannelApi Frame]

/-- A candidate is at a place of the heap that nobody knows. -/
theorem Published.construct {s : State ι} (h : Published s) {t : ι} {roomId : Str} {capacity : ℕ}
    {candidate : RoomRef} {m : RoomManager}
    (hmade : s.manager.construct roomId capacity = some (candidate, m)) :
    Published ((s.withManager m).goto t (.opening roomId capacity candidate)) := by
  obtain ⟨rfl, rfl⟩ := RoomManager.construct_eq_some hmade
  have hbelow : ∀ u x, (s.pc u).candidate = some x → x.2.2 ≠ s.manager.heap.length :=
    fun u x hu => RoomManager.ne_length_of_room (h.unknown u x.1 x.2.1 x.2.2 hu).1
  have hplace := RoomManager.getElem?_heap_append s.manager.heap
    ⟨roomId, ⟨capacity, 0, ∅, []⟩, ∅⟩
  have hkeep : ∀ ref room, s.manager.room ref = some room →
      (s.manager.heap ++ [⟨roomId, ⟨capacity, 0, ∅, []⟩, ∅⟩])[ref]? = some room := by
    intro ref room hroom
    rw [hplace, if_neg (RoomManager.ne_length_of_room hroom)]
    exact hroom
  refine ⟨⟨?_, ?_⟩, ?_, h.mapped, ?_, ?_, ?_⟩
  · intro other ref hget
    obtain ⟨room, hroom, hid⟩ := h.wellFormed.mapped other ref hget
    exact ⟨room, hkeep ref room hroom, hid⟩
  · intro ref room hroom
    have hroom' := hroom.symm.trans (hplace ref)
    split at hroom'
    · obtain rfl := Option.some.inj hroom'
      exact Channel.valid_mk_empty _ _ _
    · exact h.wellFormed.channels ref room hroom'.symm
  · intro ref href
    change ref < (s.manager.heap ++ [_]).length
    rw [List.length_append]
    exact Nat.lt_add_right _ (h.made ref href)
  · intro u other ref hu
    rw [State.goto_pc] at hu
    split at hu
    · cases hu
    · exact h.closing u other ref hu
  · intro u other cap c hu
    rw [State.goto_pc] at hu
    split at hu
    · cases hu
      refine ⟨(hplace _).trans (if_pos rfl), fun hknown => ?_⟩
      exact Nat.lt_irrefl _ (h.made _ hknown)
    · obtain ⟨hroom, hunknown⟩ := h.unknown u other cap c hu
      exact ⟨hkeep c _ hroom, hunknown⟩
  · intro u v x y hu hv heq
    rw [State.goto_pc] at hu hv
    split at hu <;> split at hv
    · next hut hvt => rw [hut, hvt]
    · cases hu
      exact absurd heq.symm (hbelow v y hv)
    · cases hv
      exact absurd heq (hbelow u x hu)
    · exact h.distinct u v x y hu hv heq

omit [DecidableEq ι] in
/-- Using a handle changes no candidate. -/
theorem Published.use {s : State ι} (h : Published s) {op : RoomOp} {ref : RoomRef}
    {result : RoomResult} {m : RoomManager} (hop : op.handle = some ref) (href : ref ∈ s.handles)
    (hcall : s.manager.call op = some (result, m)) : Published (s.withManager m) := by
  have hwell := h.wellFormed.use hop hcall
  obtain ⟨room, stats, _, rfl, _⟩ := RoomManager.call_of_handle hop hcall
  refine ⟨hwell, ?_, h.mapped, h.closing, ?_, h.distinct⟩
  · intro other hother
    change other < (s.manager.heap.modify ref op.onRoom).length
    rw [List.length_modify]
    exact h.made other hother
  · intro u roomId capacity candidate hu
    obtain ⟨hroom, hunknown⟩ := h.unknown u roomId capacity candidate hu
    refine ⟨?_, hunknown⟩
    have hne : candidate ≠ ref := fun heq => hunknown (heq ▸ href)
    rw [← hroom]
    exact (RoomManager.room_modifyRoom s.manager ref op.onRoom candidate).trans (if_neg hne)

/-! ### What steps do to the store -/

/-- Nobody sees a candidate being made. -/
theorem Published.store_construct {s : State ι} (h : Published s) {t : ι} {roomId : Str}
    {capacity : ℕ} {candidate : RoomRef} {m : RoomManager} {pc : Pc}
    (hmade : s.manager.construct roomId capacity = some (candidate, m)) :
    ((s.withManager m).goto t pc).store = s.store := by
  obtain ⟨rfl, rfl⟩ := RoomManager.construct_eq_some hmade
  refine congrArg (Store.mk · _) (funext fun ref => ?_)
  by_cases href : ref ∈ s.handles
  · refine (if_pos href).trans (Eq.trans ?_ (if_pos href).symm)
    refine congrArg (Option.map RoomManager.storedRoom) ?_
    exact (RoomManager.getElem?_heap_append _ _ ref).trans (if_neg (Nat.ne_of_lt (h.made ref href)))
  · exact (if_neg href).trans (if_neg href).symm

omit [DecidableEq ι] in
/-- Returning the mapped room is a step of the store. -/
theorem Published.step_reuse {defaultCapacity : ℕ} {s s' : State ι} (h : Published s) {op : RoomOp}
    {roomId : Str} {capacity : ℕ} {ref : RoomRef}
    (hop : Store.Creates defaultCapacity op roomId capacity)
    (hget : s.manager.get roomId = some ref) (hmanager : s'.manager = s.manager)
    (hhandles : ∀ other, other ∈ s'.handles ↔ other ∈ s.handles) :
    Store.Step defaultCapacity s.store op (.room ref) s'.store := by
  rw [store_congr (congrArg RoomManager.rooms hmanager) (congrArg RoomManager.heap hmanager) hhandles]
  exact .reuse hop (h.hosts_iff.2 hget)

omit [DecidableEq ι] in
/-- Taking a room from the map is a step of the store. -/
theorem Published.step_remove {defaultCapacity : ℕ} {s s' : State ι} (h : Published s) {roomId : Str}
    {ref : RoomRef} (hget : s.manager.get roomId = some ref)
    (hrooms : s'.manager.rooms = s.manager.rooms.erase roomId)
    (hheap : s'.manager.heap = s.manager.heap) (hhandles : s'.handles = s.handles) :
    Store.Step defaultCapacity s.store (.remove roomId) (.found (some ref)) s'.store := by
  have hremoved := h.wellFormed.toStore_remove hget
  rw [RoomManager.remove_of_get hget] at hremoved
  have hstore : s'.store = s.store.release {ref} := by
    rw [State.store, State.store, ← Store.known_release, ← hremoved, hhandles]
    refine congrArg (Store.known · s.handles) ?_
    simp only [RoomManager.toStore, RoomManager.room, hrooms, hheap]
  rw [hstore]
  exact .remove (h.hosts_iff.2 hget)

omit [DecidableEq ι] in
/-- Using a handle is a step of the store. -/
theorem Published.step_use {s : State ι} (h : Published s) {op : RoomOp} {ref : RoomRef}
    {result : RoomResult} {m : RoomManager} (hop : op.handle = some ref) (href : ref ∈ s.handles)
    (hcall : s.manager.call op = some (result, m)) :
    Store.Step s.manager.defaultCapacity s.store op result (s.withManager m).store := by
  have hstep := (h.wellFormed.refines_call hcall).step
  obtain ⟨r, hset, hknown⟩ := hstep.transfer hop (Store.known_room _ href)
  have hstore : (s.withManager m).store = s.store.setRoom ref r := by
    rw [State.store, State.withManager_manager, hset]
    exact Store.known_setRoom _ href r
  rw [hstore]
  exact hknown

/-! ### The calls that are seen -/

/-- What is seen of calls when an event is taken. -/
def seen (shards : ℕ) (shardOf : Str → ℕ) (s : State ι) (e : Event ι) :
    List (Seen (Option ι) RoomOp RoomResult) :=
  e.seen ++ (step shards shardOf s e).elim [] fun next => next.2.flatMap (Obs.seen s.manager)

/-- The history of the calls on a manager that starts like this. -/
def history (shards : ℕ) (shardOf : Str → ℕ) (es : List (Event ι)) (s : State ι) :
    List (Seen (Option ι) RoomOp RoomResult) :=
  (machine ι shards shardOf).along (seen shards shardOf) es s

/-- What is seen in a step is the call that begins and what its observations say. -/
theorem seen_of_step {shards : ℕ} {shardOf : Str → ℕ} {s s' : State ι} {e : Event ι}
    {out : List (Obs ι)} (h : step shards shardOf s e = some (s', out)) :
    seen shards shardOf s e = e.seen ++ out.flatMap (Obs.seen s.manager) := by
  rw [seen, h, Option.elim_some]

/-! ### Where calls stand -/

/-- Where the call of a thread stands that has come to this point. -/
def Pc.Stands (defaultCapacity : ℕ) : Pc → Standing RoomOp RoomResult → Prop
  | .idle, standing => standing = .idle
  | .lookingUp roomId capacity, standing =>
    ∃ i op, Store.Creates defaultCapacity op roomId capacity ∧ standing = .waiting i op
  | .constructing roomId capacity, standing =>
    ∃ i op, Store.Creates defaultCapacity op roomId capacity ∧
      standing = if AcceptedCapacity Frame capacity then .waiting i op else .served ⟨i, op, .panicked⟩
  | .opening roomId capacity _, standing =>
    ∃ i op, Store.Creates defaultCapacity op roomId capacity ∧ AcceptedCapacity Frame capacity ∧
      standing = .waiting i op
  | .inserting roomId capacity _, standing =>
    ∃ i op, Store.Creates defaultCapacity op roomId capacity ∧ AcceptedCapacity Frame capacity ∧
      standing = .waiting i op
  | .removing roomId, standing => ∃ i, standing = .waiting i (.remove roomId)
  | .closingRemoved roomId ref, standing =>
    ∃ i, standing = .served ⟨i, .remove roomId, .found (some ref)⟩
  | .enteringShard _ _ _, standing => standing = .idle
  | .scanning _ _ _ _, standing => standing = .idle
  | .deleting _ _ _ _, standing => standing = .idle
  | .closing _ _ _ _, standing => standing = .idle

/-- What holds after every run: the calls seen take effect one at a time, each as a step of the
store. -/
structure Ordered (defaultCapacity : ℕ) (s : State ι) (h : List (Seen (Option ι) RoomOp RoomResult))
    (order : List (Effect RoomOp RoomResult)) (standing : Option ι → Standing RoomOp RoomResult) :
    Prop where
  published : Published s
  capacity : s.manager.defaultCapacity = defaultCapacity
  serving : Serving h order standing
  holders : standing none = .idle
  stands : ∀ t, (s.pc t).Stands defaultCapacity (standing (some t))
  run : Store.Run defaultCapacity (order.map Effect.pair) s.store

section Steps

variable {defaultCapacity : ℕ} {s s' : State ι} {h : List (Seen (Option ι) RoomOp RoomResult)}
  {order : List (Effect RoomOp RoomResult)} {standing : Option ι → Standing RoomOp RoomResult}

/-- A thread moves and its call stands differently; the calls that took effect are a run of the
store. -/
theorem Ordered.advance (ho : Ordered defaultCapacity s h order standing) {t : ι} {pc : Pc}
    {h' : List (Seen (Option ι) RoomOp RoomResult)} {order' : List (Effect RoomOp RoomResult)}
    {v : Standing RoomOp RoomResult} (hpc : s'.pc = (s.goto t pc).pc) (hpublished : Published s')
    (hcapacity : s'.manager.defaultCapacity = s.manager.defaultCapacity)
    (hserving : Serving h' order' (Function.update standing (some t) v))
    (hstands : pc.Stands defaultCapacity v)
    (hrun : Store.Run defaultCapacity (order'.map Effect.pair) s'.store) :
    Ordered defaultCapacity s' h' order' (Function.update standing (some t) v) := by
  refine ⟨hpublished, hcapacity.trans ho.capacity, hserving, ?_, fun u => ?_, hrun⟩
  · rw [Function.update_of_ne (Option.some_ne_none t).symm]
    exact ho.holders
  · rw [hpc, State.goto_pc]
    split
    · next heq =>
      rw [heq, Function.update_self]
      exact hstands
    · next hne =>
      rw [Function.update_of_ne (fun heq => hne (Option.some.inj heq))]
      exact ho.stands u

/-- The run of the store goes on with a call that takes effect. -/
theorem Ordered.run_snoc (ho : Ordered defaultCapacity s h order standing) {i : ℕ} {op : RoomOp}
    {result : RoomResult} (hstep : Store.Step defaultCapacity s.store op result s'.store) :
    Store.Run defaultCapacity ((order ++ [(⟨i, op, result⟩ : Effect RoomOp RoomResult)]).map
      Effect.pair) s'.store := by
  rw [List.map_append]
  exact ho.run.snoc hstep

/-- A move that is not seen and has no effect. -/
theorem Ordered.silent (ho : Ordered defaultCapacity s h order standing) {t : ι} {pc : Pc}
    (hpc : s'.pc = (s.goto t pc).pc) (hpublished : Published s')
    (hcapacity : s'.manager.defaultCapacity = s.manager.defaultCapacity)
    (hstore : s'.store = s.store) (hstands : pc.Stands defaultCapacity (standing (some t))) :
    ∃ order standing, Ordered defaultCapacity s' (h ++ []) order standing := by
  rw [List.append_nil]
  refine ⟨_, _, ho.advance hpc hpublished hcapacity ?_ hstands (hstore ▸ ho.run)⟩
  rw [Function.update_eq_self]
  exact ho.serving

/-- A waiting call takes effect, and its thread moves on. -/
theorem Ordered.effect (ho : Ordered defaultCapacity s h order standing) {t : ι} {pc : Pc} {i : ℕ}
    {op : RoomOp} {result : RoomResult} (hwaiting : standing (some t) = .waiting i op)
    (hpc : s'.pc = (s.goto t pc).pc) (hpublished : Published s')
    (hcapacity : s'.manager.defaultCapacity = s.manager.defaultCapacity)
    (hstep : Store.Step defaultCapacity s.store op result s'.store)
    (hstands : pc.Stands defaultCapacity (.served ⟨i, op, result⟩)) :
    ∃ order standing, Ordered defaultCapacity s' (h ++ []) order standing := by
  rw [List.append_nil]
  exact ⟨_, _, ho.advance hpc hpublished hcapacity (ho.serving.effect result hwaiting) hstands
    (ho.run_snoc hstep)⟩

/-- A call that has taken effect is answered. -/
theorem Ordered.answer (ho : Ordered defaultCapacity s h order standing) {t : ι}
    {x : Effect RoomOp RoomResult} (hserved : standing (some t) = .served x)
    (hpc : s'.pc = (s.goto t .idle).pc) (hpublished : Published s')
    (hcapacity : s'.manager.defaultCapacity = s.manager.defaultCapacity)
    (hstore : s'.store = s.store) :
    ∃ order standing,
      Ordered defaultCapacity s' (h ++ [.answered (some t) x.result]) order standing :=
  ⟨_, _, ho.advance hpc hpublished hcapacity (ho.serving.answer hserved) rfl (hstore ▸ ho.run)⟩

/-- A waiting call takes effect and is answered at once. -/
theorem Ordered.effect_answer (ho : Ordered defaultCapacity s h order standing) {t : ι} {i : ℕ}
    {op : RoomOp} {result : RoomResult} (hwaiting : standing (some t) = .waiting i op)
    (hpc : s'.pc = (s.goto t .idle).pc) (hpublished : Published s')
    (hcapacity : s'.manager.defaultCapacity = s.manager.defaultCapacity)
    (hstep : Store.Step defaultCapacity s.store op result s'.store) :
    ∃ order standing,
      Ordered defaultCapacity s' (h ++ [.answered (some t) result]) order standing :=
  ⟨_, _, ho.advance hpc hpublished hcapacity (ho.serving.effect_answer hwaiting result) rfl
    (ho.run_snoc hstep)⟩

/-- A call that is made, takes effect and is answered at once. -/
theorem Ordered.instant (ho : Ordered defaultCapacity s h order standing) {caller : Option ι}
    {op : RoomOp} {result : RoomResult} (hidle : standing caller = .idle)
    (hpublished : Published s')
    (hcapacity : s'.manager.defaultCapacity = s.manager.defaultCapacity)
    (hstands : ∀ t, (s'.pc t).Stands defaultCapacity (standing (some t)))
    (hstep : Store.Step defaultCapacity s.store op result s'.store) :
    ∃ order standing, Ordered defaultCapacity s'
      (h ++ [.called caller op, .answered caller result]) order standing :=
  ⟨_, _, hpublished, hcapacity.trans ho.capacity, ho.serving.instant hidle op result, ho.holders,
    hstands, ho.run_snoc hstep⟩

/-- Where the call of a thread at this point stands. -/
theorem Ordered.stands_at (ho : Ordered defaultCapacity s h order standing) {t : ι} {pc : Pc}
    (hpc : s.pc t = pc) : pc.Stands defaultCapacity (standing (some t)) := hpc ▸ ho.stands t

/-- A thread without a call moves to a point without one. -/
theorem Ordered.stands_goto (ho : Ordered defaultCapacity s h order standing) {t : ι} {pc : Pc}
    (hidle : standing (some t) = .idle) (hpc : pc.Stands defaultCapacity .idle) (u : ι) :
    ((s.goto t pc).pc u).Stands defaultCapacity (standing (some u)) := by
  rw [State.goto_pc]
  split
  · next heq =>
    rw [heq, hidle]
    exact hpc
  · exact ho.stands u

/-- A call begins, a cleanup unseen. -/
theorem Ordered.call (ho : Ordered defaultCapacity s h order standing) {t : ι} (hpc : s.pc t = .idle)
    (c : Call) : ∃ order standing, Ordered defaultCapacity
      (s.goto t (c.start s.manager.defaultCapacity)) (h ++ (Event.call t c).seen) order standing := by
  have hidle : standing (some t) = .idle := ho.stands_at hpc
  have hpublished : Published (s.goto t (c.start s.manager.defaultCapacity)) := by
    refine ho.published.stay rfl (Or.inl ?_) ?_ rfl rfl fun _ => Iff.rfl
    · cases c <;> rfl
    · intro roomId ref hstart
      cases c <;> cases hstart
  rw [ho.capacity] at hpublished ⊢
  have hcall : ∀ op, (c.start defaultCapacity).Stands defaultCapacity (.waiting h.length op) →
      ∃ order standing, Ordered defaultCapacity (s.goto t (c.start defaultCapacity))
        (h ++ [.called (some t) op]) order standing := fun op hstands =>
    ⟨_, _, ho.advance rfl hpublished rfl (ho.serving.call op hidle) hstands ho.run⟩
  cases c with
  | getOrCreate roomId => exact hcall _ ⟨_, _, .default roomId, rfl⟩
  | getOrCreateWithCapacity roomId capacity => exact hcall _ ⟨_, _, .custom roomId capacity, rfl⟩
  | remove roomId => exact hcall _ ⟨_, rfl⟩
  | sweep kind => exact ho.silent rfl hpublished rfl rfl hidle

/-- A thread at a point without a call moves to another one, unseen. -/
theorem Ordered.sweep (ho : Ordered defaultCapacity s h order standing) {t : ι} {pc : Pc}
    (hidle : standing (some t) = .idle) (hpc : s'.pc = (s.goto t pc).pc)
    (hstands : pc.Stands defaultCapacity .idle) (hrooms : s'.manager.rooms = s.manager.rooms)
    (hheap : s'.manager.heap = s.manager.heap)
    (hcapacity : s'.manager.defaultCapacity = s.manager.defaultCapacity)
    (hhandles : s'.handles = s.handles) :
    ∃ order standing, Ordered defaultCapacity s' (h ++ []) order standing := by
  have hsame : ∀ ref, ref ∈ s'.handles ↔ ref ∈ s.handles := fun ref => by rw [hhandles]
  refine ho.silent hpc ?_ hcapacity (store_congr hrooms hheap hsame) (hidle.symm ▸ hstands)
  refine ho.published.stay hpc (Or.inl ?_) ?_ hrooms hheap hsame
  · cases pc with
    | opening roomId capacity candidate =>
      obtain ⟨_, _, _, _, hwaiting⟩ := hstands
      cases hwaiting
    | inserting roomId capacity candidate =>
      obtain ⟨_, _, _, _, hwaiting⟩ := hstands
      cases hwaiting
    | _ => rfl
  · rintro roomId ref rfl
    obtain ⟨_, hserved⟩ := hstands
    cases hserved

end Steps

/-- Only an accepted capacity makes a candidate. -/
theorem accepted_of_construct {m : RoomManager} {roomId : Str} {capacity : ℕ}
    {made : RoomRef × RoomManager} (h : m.construct roomId capacity = some made) :
    AcceptedCapacity Frame capacity := by
  by_contra hcapacity
  rw [RoomManager.construct, Room.withStats_of_not_accepted roomId hcapacity] at h
  cases h

/-- A thread panics when the capacity is not accepted. -/
theorem not_accepted_of_panicked {shards : ℕ} {shardOf : Str → ℕ} {s s' : State ι} {t : ι}
    {roomId : Str} {capacity : ℕ} (hpc : s.pc t = .constructing roomId capacity)
    (h : step shards shardOf s (.advance t) = some (s', [.panicked t])) :
    ¬ AcceptedCapacity Frame capacity := by
  intro hcapacity
  simp only [step, hpc, RoomManager.construct, Room.withStats_of_accepted roomId hcapacity] at h
  cases h

/-- Every step keeps the calls in order. -/
theorem Ordered.step {shards : ℕ} {shardOf : Str → ℕ} {defaultCapacity : ℕ} {s s' : State ι}
    {e : Event ι} {out : List (Obs ι)} {h : List (Seen (Option ι) RoomOp RoomResult)}
    {order : List (Effect RoomOp RoomResult)} {standing : Option ι → Standing RoomOp RoomResult}
    (ho : Ordered defaultCapacity s h order standing)
    (hstep : step shards shardOf s e = some (s', out)) :
    ∃ order standing,
      Ordered defaultCapacity s' (h ++ seen shards shardOf s e) order standing := by
  rw [seen_of_step hstep]
  have hpub := ho.published
  cases step_cases hstep with
  | call c hpc =>
    rw [List.flatMap_nil, List.append_nil]
    exact ho.call hpc c
  | use hop href hcall =>
    have hused := hpub.step_use hop href hcall
    rw [ho.capacity] at hused
    exact ho.instant ho.holders (hpub.use hop href hcall)
      (hpub.wellFormed.refines_call hcall).defaultCapacity ho.stands hused
  | found hpc hget =>
    obtain ⟨i, op, hop, hwaiting⟩ := ho.stands_at hpc
    have hsame := mem_handOut (hpub.mapped _ _ hget)
    exact ho.effect_answer hwaiting rfl (hpub.finish rfl rfl rfl hsame) rfl
      (hpub.step_reuse hop hget rfl hsame)
  | @missing t roomId capacity hpc hget =>
    obtain ⟨i, op, hop, hwaiting⟩ := ho.stands_at hpc
    have hmiss : Published (s.goto t (.constructing roomId capacity)) := by
      refine hpub.stay rfl (Or.inl rfl) ?_ rfl rfl fun _ => Iff.rfl
      intro other ref heq
      cases heq
    by_cases hcapacity : AcceptedCapacity Frame capacity
    · refine ho.silent rfl hmiss rfl rfl ⟨i, op, hop, ?_⟩
      rw [if_pos hcapacity]
      exact hwaiting
    · -- a call that will panic takes effect here, while there is no such room
      refine ho.effect hwaiting rfl hmiss rfl (.panic hop (hpub.not_hosts hget) hcapacity)
        ⟨i, op, hop, ?_⟩
      rw [if_neg hcapacity]
  | construct hpc hmade =>
    obtain ⟨i, op, hop, hstanding⟩ := ho.stands_at hpc
    have hcapacity := accepted_of_construct hmade
    rw [if_pos hcapacity] at hstanding
    refine ho.silent rfl (hpub.construct hmade) ?_ (hpub.store_construct hmade)
      ⟨i, op, hop, hcapacity, hstanding⟩
    obtain ⟨_, rfl⟩ := RoomManager.construct_eq_some hmade
    rfl
  | panic hpc =>
    obtain ⟨i, op, hop, hstanding⟩ := ho.stands_at hpc
    rw [if_neg (not_accepted_of_panicked hpc hstep)] at hstanding
    exact ho.answer hstanding rfl (hpub.finish rfl rfl rfl fun _ => Iff.rfl) rfl rfl
  | opened hpc =>
    obtain ⟨i, op, hop, hcapacity, hwaiting⟩ := ho.stands_at hpc
    refine ho.silent rfl ?_ rfl (store_congr rfl rfl fun _ => Iff.rfl)
      ⟨i, op, hop, hcapacity, hwaiting⟩
    refine hpub.stay rfl (Or.inr ?_) ?_ rfl rfl fun _ => Iff.rfl
    · rw [hpc]
      rfl
    · intro roomId ref heq
      cases heq
  | insert hpc hget =>
    obtain ⟨i, op, hop, hcapacity, hwaiting⟩ := ho.stands_at hpc
    obtain ⟨hhosted, hfresh⟩ := hpub.store_insert hpc hget
    refine ho.effect_answer hwaiting rfl (hpub.insert hpc) rfl ?_
    rw [hhosted]
    exact .create hop (hpub.not_hosts hget) hcapacity hfresh
  | lose hpc hget =>
    obtain ⟨i, op, hop, _, hwaiting⟩ := ho.stands_at hpc
    have hsame := mem_handOut (hpub.mapped _ _ hget)
    exact ho.effect_answer hwaiting rfl (hpub.finish rfl rfl rfl hsame) rfl
      (hpub.step_reuse hop hget rfl hsame)
  | remove hpc hget =>
    obtain ⟨i, hwaiting⟩ := ho.stands_at hpc
    refine ho.effect hwaiting rfl (hpub.erase _ rfl ?_) rfl (hpub.step_remove hget rfl rfl rfl)
      ⟨i, rfl⟩
    intro roomId ref heq
    cases heq
    exact hpub.mapped _ _ hget
  | removeMissing hpc hget =>
    obtain ⟨i, hwaiting⟩ := ho.stands_at hpc
    exact ho.effect_answer hwaiting rfl (hpub.finish rfl rfl rfl fun _ => Iff.rfl) rfl
      (.removeMissing (hpub.not_hosts hget))
  | closeRemoved hpc =>
    obtain ⟨i, hserved⟩ := ho.stands_at hpc
    have hsame := mem_handOut (hpub.closing _ _ _ hpc)
    exact ho.answer hserved rfl (hpub.finish rfl rfl rfl hsame) rfl (store_congr rfl rfl hsame)
  | takeOut hpc hget =>
    -- a removal of a cleanup is a call of its own
    have hidle := ho.stands_at hpc
    simp only [List.flatMap_cons, List.flatMap_nil, List.append_nil, Obs.seen, hget]
    exact ho.instant hidle (hpub.erase _ rfl fun _ _ heq => by cases heq) rfl
      (ho.stands_goto hidle rfl) (hpub.step_remove hget rfl rfl rfl)
  | miss hpc hget =>
    have hidle := ho.stands_at hpc
    refine ho.instant hidle ?_ rfl (ho.stands_goto hidle rfl) (.removeMissing (hpub.not_hosts hget))
    exact hpub.stay rfl (Or.inl rfl) (fun _ _ heq => by cases heq) rfl rfl fun _ => Iff.rfl
  | enterShard hpc | endScan hpc | leaveShard hpc | list hpc | keep hpc | allDeleted hpc
  | close hpc | finish hpc =>
    exact ho.sweep (ho.stands_at hpc) rfl rfl rfl rfl rfl rfl

/-- In every run of threads that share a manager, the calls can be put in an order, with no call
behind one that began after its answer, which is a run of the room store with the answers that the
calls gave, up to the store as the holders of handles see it. When a thread has no call in progress,
all of its calls are in the order and answered. -/
theorem calls_linearizable (shards : ℕ) (shardOf : Str → ℕ) (defaultCapacity : ℕ)
    (stats : Option StatsRecorder) {es : List (Event ι)} {s : State ι} {tr : List (Obs ι)}
    (hrun : (machine ι shards shardOf).run es (start (.empty defaultCapacity stats), []) =
      some (s, tr)) :
    ∃ order, Orders order (history shards shardOf es (start (.empty defaultCapacity stats))) ∧
      Store.Run defaultCapacity (order.map Effect.pair) s.store ∧
      (∀ roomId ref, s.store.Hosts roomId ref ↔ s.manager.get roomId = some ref) ∧
      (∀ ref, s.store.room ref =
        if ref ∈ s.handles then (s.manager.room ref).map RoomManager.storedRoom else none) ∧
      ∀ t, s.pc t = .idle → ∀ i op,
        (history shards shardOf es (start (.empty defaultCapacity stats)))[i]? =
          some (.called (some t) op) →
        ∃ x ∈ order, x.position = i ∧
          ∃ j, AnsweredAt (history shards shardOf es (start (.empty defaultCapacity stats))) x j := by
  have hordered : ∃ order standing, Ordered defaultCapacity s
      ([] ++ history shards shardOf es (start (.empty defaultCapacity stats))) order standing := by
    refine Machine.along_induct
      (P := fun s h => ∃ order standing, Ordered defaultCapacity s h order standing) ?_ hrun ?_
    · intro s h e s' out hP hstep
      obtain ⟨order, standing, ho⟩ := hP
      exact ho.step hstep
    · exact ⟨[], fun _ => .idle, published_start defaultCapacity stats, rfl, .nil, rfl,
        fun _ => rfl, .nil⟩
  rw [List.nil_append] at hordered
  obtain ⟨order, standing, ho⟩ := hordered
  refine ⟨order, ho.serving.orders, ho.run, fun _ _ => ho.published.hosts_iff, fun _ => rfl, ?_⟩
  intro t hpc i op hcall
  exact ho.serving.answered (ho.stands_at hpc) hcall

end AnyChannel

/-- Two threads race for a lobby and one removes it, while the other asks in vain for a new one; in
between somebody joins, and a cleanup finds the lobby listed but gone. -/
def racedLobby (t u v : ι) : List (Event ι) :=
  [.call t (.getOrCreate ['l']), .call u (.getOrCreateWithCapacity ['l'] 4), .advance t, .advance u,
    .advance u, .advance t, .advance t, .advance u, .advance u, .call v (.sweep .cleanup),
    .advance v, .advance v, .advance v, .advance v, .use (.join 0 7 ['n']), .advance t,
    .call u (.remove ['l']), .advance u, .call t (.getOrCreateWithCapacity ['l'] 0), .advance t,
    .advance v, .advance u, .advance t]

/-- The lobby was there for both who raced, and is gone for the removal of the cleanup and the call
that panics. -/
theorem calls_linearizable_racedLobby : ∃ s tr order,
    (machine (Fin 3) 1 fun _ => 0).run (racedLobby 0 1 2) (start (.empty 16 none), []) =
        some (s, tr) ∧
      Orders order [.called (some 0) (.getOrCreate ['l']),
        .called (some (1 : Fin 3)) (.getOrCreateWithCapacity ['l'] 4),
        .answered (some 1) (.room 0), .called none (.join 0 7 ['n']), .answered none .joined,
        .answered (some 0) (.room 0), .called (some 1) (.remove ['l']),
        .called (some 0) (.getOrCreateWithCapacity ['l'] 0), .called (some 2) (.remove ['l']),
        .answered (some 2) (.found none), .answered (some 1) (.found (some 0)),
        .answered (some 0) .panicked] ∧
      Store.Run 16 (order.map Effect.pair) s.store ∧ ∀ ref, ¬ s.store.Hosts ['l'] ref := by
  have hseen : ((machine (Fin 3) 1 fun _ => 0).run (racedLobby 0 1 2)
      (start (.empty 16 none), [])).map (fun c => c.1.manager.get ['l']) = some none := by decide
  obtain ⟨⟨s, tr⟩, hrun, hget⟩ := Option.map_eq_some_iff.1 hseen
  obtain ⟨order, horders, hstore, hhosts, _⟩ := calls_linearizable 1 (fun _ => 0) 16 none hrun
  refine ⟨s, tr, order, hrun, horders, hstore, fun ref hhosted => ?_⟩
  have hmapped := (hhosts ['l'] ref).1 hhosted
  rw [hget] at hmapped
  cases hmapped

end RoomThreads

end WsKit
