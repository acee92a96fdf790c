import WsKit.RoomThreads

/-!
# Threads agree on the rooms they create

Any number of threads may miss the same id together, and each then holds a candidate of its
own. The insert-or-get picks one of them, and every call returns what the map holds.
-/

namespace WsKit.RoomThreads

open Base

/-- The candidate that a thread holds, with the id and the capacity it was made for. -/
def Pc.candidate : Pc → Option (Str × ℕ × RoomRef)
  | .opening roomId capacity candidate => some (roomId, capacity, candidate)
  | .inserting roomId capacity candidate => some (roomId, capacity, candidate)
  | _ => none

/-- Points of a thread that only gets or creates rooms. -/
def Pc.Creating : Pc → Prop
  | .idle => True
  | .lookingUp _ _ => True
  | .constructing _ _ => True
  | .opening _ _ _ => True
  | .inserting _ _ _ => True
  | _ => False

/-- Calls that get or create rooms, and any use of handles. -/
def Creates {ι : Type*} : Event ι → Prop
  | .call _ (.getOrCreate _) => True
  | .call _ (.getOrCreateWithCapacity _ _) => True
  | .call _ _ => False
  | _ => True

instance {ι : Type*} : DecidablePred fun e : Event ι => Creates e
  | .call _ (.getOrCreate _) => isTrue trivial
  | .call _ (.getOrCreateWithCapacity _ _) => isTrue trivial
  | .call _ (.remove _) => isFalse not_false
  | .call _ (.sweep _) => isFalse not_false
  | .advance _ => isTrue trivial
  | .use _ => isTrue trivial

/-- The room at this position was made for this id with this capacity. -/
def Made (m : RoomManager) (ref : RoomRef) (roomId : Str) (capacity : ℕ) : Prop :=
  ∃ room, m.room ref = some room ∧ room.id = roomId ∧ room.tx.capacity = capacity

variable {ι : Type*}

/-- What holds while threads only get or create rooms. -/
structure Agreement (s : State ι) (tr : List (Obs ι)) : Prop where
  creating : ∀ t, (s.pc t).Creating
  won : ∀ roomId ref, s.manager.get roomId = some ref → ∃ t capacity,
    Obs.inserted t roomId capacity ref ∈ tr ∧ Obs.returned t roomId ref ∈ tr
  mapped : ∀ t roomId capacity ref, Obs.inserted t roomId capacity ref ∈ tr →
    s.manager.get roomId = some ref ∧ Made s.manager ref roomId capacity
  returned : ∀ t roomId ref, Obs.returned t roomId ref ∈ tr → s.manager.get roomId = some ref
  unmapped : ∀ t roomId capacity candidate, (s.pc t).candidate = some (roomId, capacity, candidate) →
    Made s.manager candidate roomId capacity ∧ ∀ other, s.manager.get other ≠ some candidate
  distinct : ∀ t u x y, (s.pc t).candidate = some x → (s.pc u).candidate = some y →
    x.2.2 = y.2.2 → t = u
  lost : ∀ t roomId candidate, Obs.lost t roomId candidate ∈ tr →
    (∃ made capacity, Made s.manager candidate made capacity) ∧
    (∀ other, s.manager.get other ≠ some candidate) ∧
    ∀ u x, (s.pc u).candidate = some x → x.2.2 ≠ candidate

/-- A room that was made is on the heap. -/
theorem Made.lt_length {m : RoomManager} {ref : RoomRef} {roomId : Str} {capacity : ℕ}
    (h : Made m ref roomId capacity) : ref < m.heap.length := by
  obtain ⟨room, hroom, _⟩ := h
  exact (List.getElem?_eq_some_iff.1 hroom).1

/-- The point at which a thread stands is a creating one. -/
theorem Agreement.creating_at {s : State ι} {tr : List (Obs ι)} (h : Agreement s tr) {t : ι}
    {pc : Pc} (hpc : s.pc t = pc) : pc.Creating := by
  rw [← hpc]
  exact h.creating t

/-- Steps that map nothing and make no room keep the agreement. -/
theorem Agreement.frame {s s' : State ι} {tr out : List (Obs ι)} (h : Agreement s tr)
    (hget : ∀ roomId, s'.manager.get roomId = s.manager.get roomId)
    (hmade : ∀ ref roomId capacity, Made s.manager ref roomId capacity →
      Made s'.manager ref roomId capacity)
    (hcreating : ∀ t, (s'.pc t).Creating)
    (hcandidate : ∀ t x, (s'.pc t).candidate = some x → (s.pc t).candidate = some x)
    (hreturned : ∀ t roomId ref, Obs.returned t roomId ref ∈ out →
      s.manager.get roomId = some ref)
    (hinserted : ∀ t roomId capacity ref, Obs.inserted t roomId capacity ref ∉ out)
    (hlost : ∀ t roomId candidate, Obs.lost t roomId candidate ∈ out →
      (∃ made capacity, Made s.manager candidate made capacity) ∧
      (∀ other, s.manager.get other ≠ some candidate) ∧
      ∀ u x, (s'.pc u).candidate = some x → x.2.2 ≠ candidate) :
    Agreement s' (tr ++ out) := by
  refine ⟨hcreating, ?_, ?_, ?_, ?_, ?_, ?_⟩
  · intro roomId ref hmapped
    rw [hget] at hmapped
    obtain ⟨t, capacity, hins, hret⟩ := h.won roomId ref hmapped
    exact ⟨t, capacity, List.mem_append_left out hins, List.mem_append_left out hret⟩
  · intro t roomId capacity ref hmem
    obtain hmem | hmem := List.mem_append.1 hmem
    · obtain ⟨hmapped, hroom⟩ := h.mapped t roomId capacity ref hmem
      rw [hget]
      exact ⟨hmapped, hmade _ _ _ hroom⟩
    · exact absurd hmem (hinserted t roomId capacity ref)
  · intro t roomId ref hmem
    rw [hget]
    obtain hmem | hmem := List.mem_append.1 hmem
    · exact h.returned t roomId ref hmem
    · exact hreturned t roomId ref hmem
  · intro t roomId capacity candidate hpc
    obtain ⟨hroom, hfree⟩ := h.unmapped t roomId capacity candidate (hcandidate t _ hpc)
    refine ⟨hmade _ _ _ hroom, fun other => ?_⟩
    rw [hget]
    exact hfree other
  · intro t u x y hx hy heq
    exact h.distinct t u x y (hcandidate t x hx) (hcandidate u y hy) heq
  · intro t roomId candidate hmem
    have hdropped : (∃ made capacity, Made s.manager candidate made capacity) ∧
        (∀ other, s.manager.get other ≠ some candidate) ∧
        ∀ u x, (s'.pc u).candidate = some x → x.2.2 ≠ candidate := by
      obtain hmem | hmem := List.mem_append.1 hmem
      · obtain ⟨hroom, hfree, hothers⟩ := h.lost t roomId candidate hmem
        exact ⟨hroom, hfree, fun u x hx => hothers u x (hcandidate u x hx)⟩
      · exact hlost t roomId candidate hmem
    obtain ⟨⟨made, capacity, hroom⟩, hfree, hothers⟩ := hdropped
    refine ⟨⟨made, capacity, hmade _ _ _ hroom⟩, fun other => ?_, hothers⟩
    rw [hget]
    exact hfree other

variable [DecidableEq ι]

/-- A move to a point without a candidate gives no thread a candidate. -/
theorem candidate_of_goto {s : State ι} {t : ι} {pc : Pc} (hpc : pc.candidate = none) (u : ι)
    (x : Str × ℕ × RoomRef) (h : ((s.goto t pc).pc u).candidate = some x) :
    (s.pc u).candidate = some x ∧ u ≠ t := by
  rw [State.goto_pc] at h
  split at h
  · rw [hpc] at h
    cases h
  · next hne => exact ⟨h, hne⟩

/-- A move to a creating point keeps all threads creating. -/
theorem creating_of_goto {s : State ι} {t : ι} {pc : Pc} (hpc : pc.Creating)
    (h : ∀ u, (s.pc u).Creating) (u : ι) : ((s.goto t pc).pc u).Creating := by
  rw [State.goto_pc]
  split
  · exact hpc
  · exact h u

/-- The insertion that finds its id vacant maps its candidate. -/
theorem Agreement.insert {s : State ι} {tr : List (Obs ι)} (h : Agreement s tr) {t : ι}
    {roomId : Str} {capacity : ℕ} {candidate : RoomRef}
    (hpc : s.pc t = .inserting roomId capacity candidate) (hget : s.manager.get roomId = none) :
    Agreement (((s.withManager { s.manager with
        rooms := s.manager.rooms.insert roomId candidate }).handOut candidate).goto t .idle)
      (tr ++ [.inserted t roomId capacity candidate, .returned t roomId candidate]) := by
  have hmine : (s.pc t).candidate = some (roomId, capacity, candidate) := by rw [hpc]; rfl
  obtain ⟨hroom, hfree⟩ := h.unmapped t roomId capacity candidate hmine
  have hkeep : ∀ other ref, s.manager.get other = some ref →
      AList.lookup other (s.manager.rooms.insert roomId candidate) = some ref :=
    fun other ref hother => Map.lookup_insert_of_vacant hget hother candidate
  refine ⟨creating_of_goto trivial h.creating, ?_, ?_, ?_, ?_, ?_, ?_⟩
  · intro other ref hother
    change AList.lookup other (s.manager.rooms.insert roomId candidate) = some ref at hother
    rw [Map.lookup_insert] at hother
    split at hother
    · next heq =>
      rw [heq, ← Option.some.inj hother]
      exact ⟨t, capacity, by simp, by simp⟩
    · obtain ⟨u, cap, hins, hret⟩ := h.won other ref hother
      exact ⟨u, cap, List.mem_append_left _ hins, List.mem_append_left _ hret⟩
  · intro u other cap ref hmem
    obtain hmem | hmem := List.mem_append.1 hmem
    · obtain ⟨hmapped, hmade⟩ := h.mapped u other cap ref hmem
      exact ⟨hkeep other ref hmapped, hmade⟩
    · simp only [List.mem_cons, Obs.inserted.injEq, reduceCtorEq, List.not_mem_nil, or_false] at hmem
      obtain ⟨_, rfl, rfl, rfl⟩ := hmem
      exact ⟨AList.lookup_insert _, hroom⟩
  · intro u other ref hmem
    obtain hmem | hmem := List.mem_append.1 hmem
    · exact hkeep other ref (h.returned u other ref hmem)
    · simp only [List.mem_cons, Obs.returned.injEq, reduceCtorEq, List.not_mem_nil, false_or,
        or_false] at hmem
      obtain ⟨_, rfl, rfl⟩ := hmem
      exact AList.lookup_insert _
  · intro u made cap c hu
    obtain ⟨hu, hne⟩ := candidate_of_goto rfl u _ hu
    obtain ⟨hmade, hunmapped⟩ := h.unmapped u made cap c hu
    refine ⟨hmade, fun other => ?_⟩
    change AList.lookup other (s.manager.rooms.insert roomId candidate) ≠ some c
    rw [Map.lookup_insert]
    split
    · intro heq
      exact hne (h.distinct u t _ _ hu hmine (Option.some.inj heq).symm)
    · exact hunmapped other
  · intro u v x y hx hy
    exact h.distinct u v x y (candidate_of_goto rfl u x hx).1 (candidate_of_goto rfl v y hy).1
  · intro u made c hmem
    obtain hmem | hmem := List.mem_append.1 hmem
    · obtain ⟨hmade, hunmapped, hothers⟩ := h.lost u made c hmem
      refine ⟨hmade, fun other => ?_, fun v x hx => hothers v x (candidate_of_goto rfl v x hx).1⟩
      change AList.lookup other (s.manager.rooms.insert roomId candidate) ≠ some c
      rw [Map.lookup_insert]
      split
      · intro heq
        exact hothers t _ hmine (Option.some.inj heq)
      · exact hunmapped other
    · simp at hmem

/-- The insertion that finds its id mapped drops its candidate for good. -/
theorem Agreement.lose {s : State ι} {tr : List (Obs ι)} (h : Agreement s tr) {t : ι}
    {roomId : Str} {capacity : ℕ} {candidate ref : RoomRef}
    (hpc : s.pc t = .inserting roomId capacity candidate)
    (hget : s.manager.get roomId = some ref) :
    Agreement ((s.handOut ref).goto t .idle)
      (tr ++ [.lost t roomId candidate, .returned t roomId ref]) := by
  have hmine : (s.pc t).candidate = some (roomId, capacity, candidate) := by rw [hpc]; rfl
  obtain ⟨hroom, hfree⟩ := h.unmapped t roomId capacity candidate hmine
  refine h.frame (fun _ => rfl) (fun _ _ _ hmade => hmade) (creating_of_goto trivial h.creating)
    (fun u x hx => (candidate_of_goto rfl u x hx).1) ?_ (by simp) ?_
  · intro u other mapped hmem
    simp only [List.mem_cons, Obs.returned.injEq, reduceCtorEq, List.not_mem_nil, false_or,
      or_false] at hmem
    obtain ⟨_, rfl, rfl⟩ := hmem
    exact hget
  · -- the dropped candidate was this thread's own, so nobody else has it
    intro u made c hmem
    simp only [List.mem_cons, Obs.lost.injEq, reduceCtorEq, List.not_mem_nil, or_false] at hmem
    obtain ⟨_, _, rfl⟩ := hmem
    refine ⟨⟨roomId, capacity, hroom⟩, hfree, fun v x hx heq => ?_⟩
    obtain ⟨hx, hne⟩ := candidate_of_goto rfl v x hx
    exact hne (h.distinct v t x _ hx hmine heq)

/-- Steps of one thread that leave the map and the rooms alone, and give it no candidate, keep the
agreement. -/
theorem Agreement.move {s s' : State ι} {tr out : List (Obs ι)} (h : Agreement s tr) {t : ι}
    {pc : Pc} (hpc : s'.pc = (s.goto t pc).pc) (hcreating : pc.Creating)
    (hcandidate : pc.candidate = none ∨ pc.candidate = (s.pc t).candidate)
    (hrooms : s'.manager.rooms = s.manager.rooms) (hheap : s'.manager.heap = s.manager.heap)
    (hout : ∀ o ∈ out, (∃ u, o = .panicked u) ∨
      ∃ u roomId ref, o = .returned u roomId ref ∧ s.manager.get roomId = some ref) :
    Agreement s' (tr ++ out) := by
  apply h.frame
  · intro roomId
    rw [RoomManager.get, hrooms]
    rfl
  · intro ref roomId capacity hmade
    obtain ⟨room, hroom, hshell⟩ := hmade
    refine ⟨room, ?_, hshell⟩
    rw [RoomManager.room, hheap]
    exact hroom
  · rw [hpc]
    exact creating_of_goto hcreating h.creating
  · intro u x hx
    rw [hpc, State.goto_pc] at hx
    split at hx
    · next heq =>
      obtain hnone | hsame := hcandidate
      · rw [hnone] at hx
        cases hx
      · rw [heq, ← hsame]
        exact hx
    · exact hx
  · intro u roomId ref hmem
    obtain ⟨v, hpanic⟩ | ⟨v, id, mapped, heq, hget⟩ := hout _ hmem
    · cases hpanic
    · cases heq
      exact hget
  · intro u roomId capacity ref hmem
    obtain ⟨v, hpanic⟩ | ⟨v, id, mapped, heq, _⟩ := hout _ hmem
    · cases hpanic
    · cases heq
  · intro u roomId candidate hmem
    obtain ⟨v, hpanic⟩ | ⟨v, id, mapped, heq, _⟩ := hout _ hmem
    · cases hpanic
    · cases heq

section AnyChannel

variable [ChannelApi Frame]

/-- Constructing a candidate keeps the agreement: nobody has seen its position before. -/
theorem Agreement.construct {s : State ι} {tr : List (Obs ι)} (h : Agreement s tr) {t : ι}
    {roomId : Str} {capacity : ℕ} {candidate : RoomRef} {m : RoomManager}
    (hmade : s.manager.construct roomId capacity = some (candidate, m)) :
    Agreement ((s.withManager m).goto t (.opening roomId capacity candidate)) (tr ++ []) := by
  obtain ⟨rfl, rfl⟩ := RoomManager.construct_eq_some hmade
  rw [List.append_nil]
  have hkept : ∀ ref made cap, Made s.manager ref made cap → Made { s.manager with
      heap := s.manager.heap ++ [⟨roomId, ⟨capacity, 0, ∅, []⟩, ∅⟩] } ref made cap := by
    intro ref made cap hroom
    have hlt := hroom.lt_length
    obtain ⟨room, hroom, hshell⟩ := hroom
    refine ⟨room, ?_, hshell⟩
    rw [RoomManager.room, RoomManager.getElem?_heap_append, if_neg (Nat.ne_of_lt hlt)]
    exact hroom
  have hnew : Made { s.manager with
      heap := s.manager.heap ++ [⟨roomId, ⟨capacity, 0, ∅, []⟩, ∅⟩] } s.manager.heap.length
      roomId capacity := by
    refine ⟨⟨roomId, ⟨capacity, 0, ∅, []⟩, ∅⟩, ?_, rfl, rfl⟩
    rw [RoomManager.room, RoomManager.getElem?_heap_append, if_pos rfl]
  have hbelow : ∀ u x, (s.pc u).candidate = some x → x.2.2 < s.manager.heap.length := by
    intro u x hx
    exact (h.unmapped u x.1 x.2.1 x.2.2 hx).1.lt_length
  refine ⟨creating_of_goto trivial h.creating, h.won, ?_, h.returned, ?_, ?_, ?_⟩
  · intro u made cap ref hmem
    obtain ⟨hmapped, hroom⟩ := h.mapped u made cap ref hmem
    exact ⟨hmapped, hkept _ _ _ hroom⟩
  · intro u made cap c hpc
    rw [State.goto_pc] at hpc
    split at hpc
    · cases hpc
      refine ⟨hnew, fun other hother => ?_⟩
      obtain ⟨v, cap, hins, _⟩ := h.won other _ hother
      exact Nat.lt_irrefl _ (h.mapped v other cap _ hins).2.lt_length
    · obtain ⟨hroom, hfree⟩ := h.unmapped u made cap c hpc
      exact ⟨hkept _ _ _ hroom, hfree⟩
  · intro u v x y hx hy heq
    rw [State.goto_pc] at hx hy
    split at hx <;> split at hy
    · next hu hv => rw [hu, hv]
    · cases hx
      exact absurd heq.symm (Nat.ne_of_lt (hbelow v y hy))
    · cases hy
      exact absurd heq (Nat.ne_of_lt (hbelow u x hx))
    · exact h.distinct u v x y hx hy heq
  · intro u made c hmem
    obtain ⟨⟨id, cap, hroom⟩, hfree, hothers⟩ := h.lost u made c hmem
    refine ⟨⟨id, cap, hkept _ _ _ hroom⟩, hfree, fun v x hx => ?_⟩
    rw [State.goto_pc] at hx
    split at hx
    · cases hx
      exact (Nat.ne_of_lt hroom.lt_length).symm
    · exact hothers v x hx

omit [DecidableEq ι] in
/-- Using a handle keeps the agreement. -/
theorem Agreement.use {s : State ι} {tr : List (Obs ι)} (h : Agreement s tr) {op : RoomOp}
    {ref : RoomRef} {result : RoomResult} {m : RoomManager} (hop : op.handle = some ref)
    (hcall : s.manager.call op = some (result, m)) :
    Agreement (s.withManager m) (tr ++ [.used op result]) := by
  obtain ⟨room, stats, hroom, rfl, _⟩ := RoomManager.call_of_handle hop hcall
  apply h.frame
  · intro roomId
    rfl
  · intro ref' roomId capacity ⟨room', hroom', hid, hcapacity⟩
    have hpos := RoomManager.room_modifyRoom s.manager ref op.onRoom ref'
    by_cases heq : ref' = ref
    · rw [if_pos heq, hroom', Option.map_some] at hpos
      have hshell := RoomManager.onRoom_shell op room'
      exact ⟨op.onRoom room', hpos, hshell.1.trans hid, hshell.2.trans hcapacity⟩
    · rw [if_neg heq, hroom'] at hpos
      exact ⟨room', hpos, hid, hcapacity⟩
  · exact h.creating
  · intro u x hx
    exact hx
  · simp
  · simp
  · simp

/-- Every step of creating threads keeps the agreement. -/
theorem Agreement.step {shards : ℕ} {shardOf : Str → ℕ} {s s' : State ι} {e : Event ι}
    {tr out : List (Obs ι)} (h : Agreement s tr) (hcreates : Creates e)
    (hstep : Step shards shardOf s e s' out) : Agreement s' (tr ++ out) := by
  cases hstep with
  | call c hpc =>
    cases c with
    | getOrCreate roomId => exact h.move rfl trivial (Or.inl rfl) rfl rfl (by simp)
    | getOrCreateWithCapacity roomId capacity =>
      exact h.move rfl trivial (Or.inl rfl) rfl rfl (by simp)
    | remove roomId => exact hcreates.elim
    | sweep kind => exact hcreates.elim
  | use hop _ hcall => exact h.use hop hcall
  | found hpc hget =>
    refine h.move rfl trivial (Or.inl rfl) rfl rfl fun o ho => Or.inr ?_
    exact ⟨_, _, _, List.mem_singleton.1 ho, hget⟩
  | missing hpc => exact h.move rfl trivial (Or.inl rfl) rfl rfl (by simp)
  | construct hpc hmade => exact h.construct hmade
  | panic hpc =>
    refine h.move rfl trivial (Or.inl rfl) rfl rfl fun o ho => Or.inl ?_
    exact ⟨_, List.mem_singleton.1 ho⟩
  | opened hpc =>
    refine h.move rfl trivial (Or.inr ?_) rfl rfl (by simp)
    rw [hpc]
    rfl
  | insert hpc hget => exact h.insert hpc hget
  | lose hpc hget => exact h.lose hpc hget
  | remove hpc | removeMissing hpc | closeRemoved hpc | enterShard hpc | endScan hpc
  | leaveShard hpc | list hpc | keep hpc | allDeleted hpc | takeOut hpc | miss hpc | close hpc
  | finish hpc =>
    exact (h.creating_at hpc).elim

end AnyChannel

end WsKit.RoomThreads
