import WsKit.Base.Threads
import WsKit.RoomThreads

/-!
# The room gauge under concurrent calls

A call tells the recorder of a room before it knows whether its candidate gets mapped, and a
cleanup closes as many rooms as it listed, not as many as it took out. The gauge is right
once all calls have returned when no insertion finds its id taken and no deletion finds its
id gone. A lost race leaves it one too high for good.
-/

namespace WsKit.RoomThreads

open Base

variable {ι : Type*}

/-- What the gauge holds on behalf of a thread: a room opened and not yet mapped, or rooms taken
out and not yet closed. -/
def Pc.owed : Pc → ℕ
  | .inserting _ _ _ => 1
  | .closingRemoved _ _ => 1
  | .deleting _ _ _ taken => taken
  | .closing _ left _ _ => left
  | _ => 0

/-- A deleting thread has taken out every id that is no longer pending. -/
def Pc.Counted : Pc → Prop
  | .deleting _ pending listed taken => taken + pending.length = listed
  | _ => True

/-- An insertion finds its id vacant, and a deletion finds its id mapped. -/
def Undisturbed (s : State ι) : Event ι → Prop
  | .advance t =>
    (∀ roomId ∈ (s.pc t).inserts, s.manager.get roomId = none) ∧
      ∀ roomId ∈ (s.pc t).deletes, s.manager.get roomId ≠ none
  | _ => True

instance (s : State ι) : ∀ e, Decidable (Undisturbed s e)
  | .call _ _ => isTrue trivial
  | .advance _ => inferInstanceAs (Decidable (_ ∧ _))
  | .use _ => isTrue trivial

/-- The gauge counts the mapped rooms and what it holds on behalf of the threads. -/
structure Balanced [Fintype ι] (s : State ι) : Prop where
  gauge : s.manager.roomsGauge = some (s.manager.roomCount + ∑ u, (s.pc u).owed)
  counted : ∀ t, (s.pc t).Counted

variable [Fintype ι] [DecidableEq ι]

/-- A step of one thread keeps the balance when it keeps that thread's part of it. -/
theorem Balanced.move {s s' : State ι} (h : Balanced s) {t : ι} {before pc : Pc}
    (hbefore : s.pc t = before) (hpc : s'.pc = (s.goto t pc).pc)
    (hcounted : before.Counted → pc.Counted)
    (hgauge : ∀ others, s.manager.roomsGauge = some (s.manager.roomCount + (others + before.owed)) →
      s'.manager.roomsGauge = some (s'.manager.roomCount + (others + pc.owed))) : Balanced s' := by
  have hpcs : s'.pc = Function.update s.pc t pc := hpc
  refine ⟨?_, ?_⟩
  · obtain ⟨others, hsum, hupdate⟩ := exists_sum_update Pc.owed s.pc t
    have hold := h.gauge
    rw [hsum, hbefore] at hold
    rw [hpcs, hupdate]
    exact hgauge others hold
  · intro u
    rw [hpc, State.goto_pc]
    split
    · have hmine := h.counted t
      rw [hbefore] at hmine
      exact hcounted hmine
    · exact h.counted u

/-- The gauge after a room was opened. -/
theorem roomsGauge_roomOpened {m : RoomManager} {n : ℕ} (h : m.roomsGauge = some n) :
    m.roomOpened.roomsGauge = some (n + 1) := by
  obtain ⟨recorder, hrecorder, rfl⟩ := Option.map_eq_some_iff.1 h
  rw [RoomManager.roomsGauge, RoomManager.roomOpened, hrecorder]
  rfl

/-- The gauge after a room was closed. -/
theorem roomsGauge_roomClosed {m : RoomManager} {n : ℕ} (h : m.roomsGauge = some (n + 1)) :
    m.roomClosed.roomsGauge = some n := by
  obtain ⟨recorder, hrecorder, hn⟩ := Option.map_eq_some_iff.1 h
  rw [RoomManager.roomsGauge, RoomManager.roomClosed, hrecorder, Option.map_some, Option.map_some,
    StatsRecorder.snapshot_rooms_roomClosed, hn, Nat.add_sub_cancel]

/-- Mapping a vacant id adds a room. -/
theorem roomCount_insert {m : RoomManager} {roomId : Str} (hget : m.get roomId = none)
    (ref : RoomRef) : RoomManager.roomCount { m with rooms := m.rooms.insert roomId ref } =
      m.roomCount + 1 :=
  Map.size_insert (AList.lookup_eq_none.1 hget) ref

/-- Unmapping an id takes a room away. -/
theorem roomCount_erase {m : RoomManager} {roomId : Str} {ref : RoomRef}
    (hget : m.get roomId = some ref) :
    RoomManager.roomCount { m with rooms := m.rooms.erase roomId } + 1 = m.roomCount :=
  Map.size_erase (Map.mem_iff_lookup.2 ⟨ref, hget⟩)

section AnyChannel

variable [ChannelApi Frame]

/-- Every undisturbed step keeps the balance. -/
theorem Balanced.step {shards : ℕ} {shardOf : Str → ℕ} {s s' : State ι} {e : Event ι}
    {out : List (Obs ι)} (h : Balanced s) (hundisturbed : Undisturbed s e)
    (hstep : Step shards shardOf s e s' out) : Balanced s' := by
  cases hstep with
  | call c hpc =>
    cases c <;> exact h.move hpc rfl (fun _ => trivial) fun others hgauge => hgauge
  | use hop _ hcall =>
    obtain ⟨room, stats, _, rfl, hstats⟩ := RoomManager.call_of_handle hop hcall
    exact ⟨hstats.trans h.gauge, h.counted⟩
  | found hpc => exact h.move hpc rfl (fun _ => trivial) fun others hgauge => hgauge
  | missing hpc => exact h.move hpc rfl (fun _ => trivial) fun others hgauge => hgauge
  | construct hpc hmade =>
    obtain ⟨rfl, rfl⟩ := RoomManager.construct_eq_some hmade
    exact h.move hpc rfl (fun _ => trivial) fun others hgauge => hgauge
  | panic hpc => exact h.move hpc rfl (fun _ => trivial) fun others hgauge => hgauge
  | opened hpc =>
    exact h.move hpc rfl (fun _ => trivial) fun others hgauge => roomsGauge_roomOpened hgauge
  | insert hpc hget =>
    refine h.move hpc rfl (fun _ => trivial) fun others hgauge => hgauge.trans (congrArg some ?_)
    have hsize := roomCount_insert hget
    simp only [Pc.owed, State.goto_manager, State.handOut_manager, State.withManager_manager, hsize]
    omega
  | lose hpc hget =>
    rw [Undisturbed, hpc] at hundisturbed
    rw [hundisturbed.1 _ rfl] at hget
    cases hget
  | remove hpc hget =>
    refine h.move hpc rfl (fun _ => trivial) fun others hgauge => hgauge.trans (congrArg some ?_)
    have hsize := roomCount_erase hget
    simp only [Pc.owed, State.goto_manager, State.withManager_manager]
    omega
  | removeMissing hpc => exact h.move hpc rfl (fun _ => trivial) fun others hgauge => hgauge
  | closeRemoved hpc =>
    exact h.move hpc rfl (fun _ => trivial) fun others hgauge => roomsGauge_roomClosed hgauge
  | enterShard hpc => exact h.move hpc rfl (fun _ => trivial) fun others hgauge => hgauge
  | endScan hpc =>
    exact h.move hpc rfl (fun _ => Nat.zero_add _) fun others hgauge => hgauge
  | leaveShard hpc => exact h.move hpc rfl (fun _ => trivial) fun others hgauge => hgauge
  | list hpc => exact h.move hpc rfl (fun _ => trivial) fun others hgauge => hgauge
  | keep hpc => exact h.move hpc rfl (fun _ => trivial) fun others hgauge => hgauge
  | @allDeleted t kind listed taken hpc =>
    have hcounted := h.counted t
    rw [hpc] at hcounted
    have hall : taken = listed := hcounted
    subst hall
    exact h.move hpc rfl (fun _ => trivial) fun others hgauge => hgauge
  | takeOut hpc hget =>
    refine h.move hpc rfl (fun hcounted => ?_) fun others hgauge =>
      hgauge.trans (congrArg some ?_)
    · have hlength : _ + (List.length _ + 1) = _ := hcounted
      change _ + 1 + List.length _ = _
      omega
    · have hsize := roomCount_erase hget
      simp only [Pc.owed, State.goto_manager, State.withManager_manager]
      omega
  | miss hpc hget =>
    rw [Undisturbed, hpc] at hundisturbed
    exact absurd hget (hundisturbed.2 _ rfl)
  | close hpc =>
    exact h.move hpc rfl (fun _ => trivial) fun others hgauge => roomsGauge_roomClosed hgauge
  | finish hpc => exact h.move hpc rfl (fun _ => trivial) fun others hgauge => hgauge

/-- In every run whose insertions all find their id vacant and whose deletions all find their id
mapped, the gauge is the number of mapped rooms whenever no call is in progress. -/
theorem roomsGauge_eq_roomCount (shards : ℕ) (shardOf : Str → ℕ) (broadcastCapacity : ℕ)
    {es : List (Event ι)} {s : State ι} {tr : List (Obs ι)}
    (hrun : (machine ι shards shardOf).run es (start (.withStats broadcastCapacity .new), []) =
      some (s, tr))
    (hundisturbed : (machine ι shards shardOf).Meets (fun s _ e => Undisturbed s e) es
      (start (.withStats broadcastCapacity .new), []))
    (hidle : ∀ t, s.pc t = .idle) : s.manager.roomsGauge = some s.manager.roomCount := by
  have h : Balanced s := by
    refine Machine.run_induct (P := fun s _ => Balanced s)
      (fun s tr e s' out hP hG he => hP.step hG (step_cases he)) hrun hundisturbed ?_
    refine ⟨?_, fun _ => trivial⟩
    have hnone : ∑ u : ι, ((start (.withStats broadcastCapacity .new) : State ι).pc u).owed = 0 :=
      Finset.sum_eq_zero fun u _ => rfl
    rw [hnone]
    rfl
  have hnone : ∑ u, (s.pc u).owed = 0 := Finset.sum_eq_zero fun u _ => by rw [hidle u]; rfl
  rw [h.gauge, hnone, Nat.add_zero]

end AnyChannel

/-- A thread that creates a room and removes it again, while another creates one of its own and
sweeps. -/
def undisturbedCalls (t u : ι) : List (Event ι) :=
  [.call t (.getOrCreate ['a']), .call u (.getOrCreate ['b']), .advance t, .advance u, .advance t,
    .advance u, .advance t, .advance u, .advance t, .advance u, .call t (.remove ['a']),
    .call u (.sweep .cleanup), .advance t, .advance u, .advance t, .advance u, .advance u,
    .advance u, .advance u, .advance u, .advance u, .advance u, .advance u, .advance u]

/-- Both rooms are gone in the end, and the gauge is back at zero. -/
theorem roomsGauge_eq_roomCount_undisturbedCalls : ∃ s tr,
    (machine (Fin 2) 2 List.length).run (undisturbedCalls 0 1) (start (.withStats 16 .new), []) =
      some (s, tr) ∧ s.manager.roomsGauge = some s.manager.roomCount ∧ s.manager.roomCount = 0 := by
  have hseen : ((machine (Fin 2) 2 List.length).run (undisturbedCalls 0 1)
      (start (.withStats 16 .new), [])).map
      (fun c => (c.1.pc 0, c.1.pc 1, c.1.manager.roomCount)) = some (.idle, .idle, 0) := by decide
  obtain ⟨⟨s, tr⟩, hrun, heq⟩ := Option.map_eq_some_iff.1 hseen
  simp only [Prod.mk.injEq] at heq
  obtain ⟨hfirst, hsecond, hcount⟩ := heq
  refine ⟨s, tr, hrun, ?_, hcount⟩
  exact roomsGauge_eq_roomCount 2 List.length 16 hrun (by decide)
    (Fin.forall_fin_two.2 ⟨hfirst, hsecond⟩)

/-- Threads that race for one id: both miss it, and both open a room before one insertion loses. -/
def lostRace (t u : ι) : List (Event ι) :=
  [.call t (.getOrCreate ['a']), .call u (.getOrCreate ['a']), .advance t, .advance u, .advance t,
    .advance u, .advance t, .advance u, .advance t, .advance u]

/-- After the race both calls have returned, and the gauge says two where one room is mapped. -/
theorem lostRace_overcounts : ∃ s tr,
    (machine (Fin 2) 4 List.length).run (lostRace 0 1) (start (.withStats 16 .new), []) = some (s, tr) ∧
      (∀ t, s.pc t = .idle) ∧ s.manager.roomsGauge = some 2 ∧ s.manager.roomCount = 1 := by
  have hseen : ((machine (Fin 2) 4 List.length).run (lostRace 0 1)
      (start (.withStats 16 .new), [])).map
      (fun c => (c.1.pc 0, c.1.pc 1, c.1.manager.roomsGauge, c.1.manager.roomCount)) =
        some (.idle, .idle, some 2, 1) := by decide
  obtain ⟨⟨s, tr⟩, hrun, heq⟩ := Option.map_eq_some_iff.1 hseen
  simp only [Prod.mk.injEq] at heq
  obtain ⟨hfirst, hsecond, hgauge, hcount⟩ := heq
  exact ⟨s, tr, hrun, Fin.forall_fin_two.2 ⟨hfirst, hsecond⟩, hgauge, hcount⟩

end WsKit.RoomThreads
