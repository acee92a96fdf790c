import WsKit.RoomListeners

/-!
# Recorded traffic and the receivers behind it

The recorder of a manager counts what broadcasts report. Here its counters are compared, after any
run, with what became of the frames: each room id has sent out as many messages as the receivers
of all rooms ever made under it have read, missed and left unread, and has dropped as many as
found nobody.
-/

namespace WsKit.RoomManager

open Base

/-- The traffic counters in a recorder's snapshot, those of the rooms and the global ones. -/
def traffic (recorder : StatsRecorder) : Map Str RoomCounters × RoomCounters :=
  (recorder.snapshot.perRoom,
    { messagesIn := recorder.snapshot.messagesIn
      messagesOut := recorder.snapshot.messagesOut
      bytesIn := recorder.snapshot.bytesIn
      bytesOut := recorder.snapshot.bytesOut
      drops := recorder.snapshot.drops })

/-- The receivers that a send has reached. -/
def reachedBy : Listening.Obs Frame → ℕ
  | .sent _ (some n) => n
  | _ => 0

/-- The bytes that a send has delivered to all of them. -/
def bytesBy : Listening.Obs Frame → ℕ
  | .sent frame (some n) => frame.len * n
  | _ => 0

/-- Whether a send has reached nobody. -/
def lostBy : Listening.Obs Frame → ℕ
  | .sent _ none => 1
  | _ => 0

/-- The sum over what was seen of all rooms whose id satisfies `P`. -/
def total (m : RoomManager) (tr : List Seen) (P : Str → Bool) (f : Listening.Obs Frame → ℕ) : ℕ :=
  ∑ ref ∈ Finset.range m.heap.length,
    if (m.room ref).any (fun room => P room.id) then ((onRoom ref tr).map f).sum else 0

/-- The counters of the rooms whose id satisfies `P`, as the trace gives them. -/
def counters (m : RoomManager) (tr : List Seen) (P : Str → Bool) : RoomCounters :=
  { messagesOut := .ofNat (total m tr P reachedBy)
    bytesOut := .ofNat (total m tr P bytesBy)
    drops := .ofNat (total m tr P lostBy) }

/-- The counters of the recorder, if any, are those that the trace gives, for each room id and in
all. -/
def Recorded (m : RoomManager) (tr : List Seen) : Prop :=
  ∀ recorded ∈ m.stats.map traffic,
    (∀ roomId, (recorded.1.lookup roomId).getD {} = counters m tr (· = roomId)) ∧
      recorded.2 = counters m tr fun _ => true

/-! ### What calls and reads add to a trace -/

/-- The handles up to the length of the heap are those of rooms. -/
theorem lt_length_iff {m : RoomManager} {ref : RoomRef} :
    ref < m.heap.length ↔ ∃ room, m.room ref = some room := by
  rw [RoomManager.room, ← Option.isSome_iff_exists, Option.isSome_iff_ne_none, Ne,
    List.getElem?_eq_none_iff, Nat.not_le]

/-- The reading is of sends alone. -/
structure ReadsSends (f : Listening.Obs Frame → ℕ) : Prop where
  subscribed : ∀ rx, f (.subscribed rx) = 0
  dropped : ∀ rx, f (.dropped rx) = 0
  received : ∀ rx answer, f (.received rx answer) = 0

/-- All three readings are of sends. -/
theorem readsSends : ReadsSends reachedBy ∧ ReadsSends bytesBy ∧ ReadsSends lostBy :=
  ⟨⟨fun _ => rfl, fun _ => rfl, fun _ _ => rfl⟩, ⟨fun _ => rfl, fun _ => rfl, fun _ _ => rfl⟩,
    ⟨fun _ => rfl, fun _ => rfl, fun _ _ => rfl⟩⟩

/-- Calls other than broadcasts show subscriptions and receivers dropped. -/
theorem shows_cases {op : RoomOp} {result : RoomResult} {o : Listening.Obs Frame}
    (hop : op.sends = false) (h : op.shows result = some o) :
    (∃ rx, o = .subscribed rx) ∨ ∃ rx, o = .dropped rx := by
  unfold RoomOp.shows at h
  split at h
  · next rx => exact .inl ⟨rx, (Option.some.inj h).symm⟩
  · next rx => exact .inr ⟨rx, (Option.some.inj h).symm⟩
  · cases hop
  · cases h

/-- A call that broadcasts nothing adds nothing. -/
theorem total_called {op : RoomOp} {result : RoomResult} (hop : op.sends = false) (m : RoomManager)
    (P : Str → Bool) {f : Listening.Obs Frame → ℕ} (hf : ReadsSends f) :
    total m [.called op result] P f = 0 := by
  refine Finset.sum_eq_zero fun ref _ => ?_
  rw [onRoom_singleton, Seen.onRoom]
  by_cases hhandle : op.handle = some ref
  · rw [if_pos hhandle]
    cases hshown : op.shows result with
    | none => exact ite_self _
    | some o =>
      have hzero : f o = 0 := by
        obtain ⟨rx, rfl⟩ | ⟨rx, rfl⟩ := shows_cases hop hshown
        · exact hf.subscribed rx
        · exact hf.dropped rx
      rw [Option.toList_some, List.map_singleton, List.sum_singleton, hzero, ite_self]
  · rw [if_neg hhandle]
    exact ite_self _

/-- Reading adds nothing. -/
theorem total_received (m : RoomManager) (ref : RoomRef) (rx : ReceiverId) (answer : Received Frame)
    (P : Str → Bool) {f : Listening.Obs Frame → ℕ} (hf : ReadsSends f) :
    total m [.received ref rx answer] P f = 0 := by
  refine Finset.sum_eq_zero fun ref' _ => ?_
  rw [onRoom_singleton, Seen.onRoom]
  by_cases href : ref = ref'
  · rw [if_pos href, Option.toList_some, List.map_singleton, List.sum_singleton, hf.received,
      ite_self]
  · rw [if_neg href]
    exact ite_self _

/-- A broadcast adds to the rooms of its id. -/
theorem total_broadcast {m : RoomManager} {ref : RoomRef} {room : Room}
    (hroom : m.room ref = some room) (frame : Frame) (result : Outcome WsError ℕ) (P : Str → Bool)
    (f : Listening.Obs Frame → ℕ) :
    total m [.called (.broadcast ref frame) (.broadcasted result)] P f =
      if P room.id then f (.sent frame result.toOption) else 0 := by
  have hlt : ref ∈ Finset.range m.heap.length :=
    Finset.mem_range.2 (List.getElem?_eq_some_iff.1 hroom).1
  rw [total, Finset.sum_eq_single_of_mem ref hlt]
  · rw [hroom, Option.any_some, onRoom_singleton, Seen.onRoom, RoomOp.handle, if_pos rfl]
    simp [RoomOp.shows]
  · intro ref' _ hne
    rw [onRoom_singleton, Seen.onRoom, RoomOp.handle, if_neg fun h => hne (Option.some.inj h).symm]
    exact ite_self _

/-- The receivers reached, read off one by one. -/
theorem sum_reachedBy (tr : List (Listening.Obs Frame)) :
    (tr.map reachedBy).sum = Listening.reached tr := by
  induction tr with
  | nil => rfl
  | cons o tr ih =>
    rw [List.map_cons, List.sum_cons, ih, Listening.reached_cons]
    congr 1
    cases o with
    | sent frame reached => cases reached <;> rfl
    | subscribed rx => rfl
    | dropped rx => rfl
    | received rx answer => rfl

/-- Closing rooms is no traffic. -/
theorem traffic_iterate_roomClosed (recorder : StatsRecorder) (n : ℕ) :
    traffic (StatsRecorder.roomClosed^[n] recorder) = traffic recorder := by
  induction n generalizing recorder with
  | zero => rfl
  | succ n ih =>
    rw [Function.iterate_succ_apply, ih]
    rfl

/-- The frames that the receivers of a room have read, missed and left unread. -/
def accountedFor (s : InUse) (tr : List Seen) (ref : RoomRef) : ℕ :=
  ∑ rx ∈ Finset.range ((s.manager.room ref).elim 0 fun room => room.tx.created),
    ((Listening.messages (Listening.reads (onRoom ref tr) rx)).length +
      Listening.missed (Listening.reads (onRoom ref tr) rx) +
      ((Listening.offered (onRoom ref tr) rx).length - s.passed ref rx))

/-- What is accounted for on all rooms was counted when it was sent. -/
theorem Heard.total_reachedBy {s : InUse} {tr : List Seen} (h : Heard s tr) (P : Str → Bool) :
    total s.manager tr P reachedBy = ∑ ref ∈ Finset.range s.manager.heap.length,
      if (s.manager.room ref).any (fun room => P room.id) then accountedFor s tr ref else 0 := by
  refine Finset.sum_congr rfl fun ref _ => ?_
  cases hroom : s.manager.room ref with
  | none => rfl
  | some room =>
    rw [sum_reachedBy, accountedFor, hroom, Option.elim_some, (h.accounted ref room hroom).total_eq]

section AnyChannel

variable [ChannelApi Frame]

/-! ### Calls that send nothing -/

/-- Asking for a room is no traffic. -/
theorem traffic_of_answer {m m' : RoomManager} {roomId : Str} {capacity : ℕ} {result : RoomResult}
    (h : m.answer (m.getOrCreateWithCapacity roomId capacity) = (result, m')) :
    m'.stats.map traffic = m.stats.map traffic := by
  obtain ⟨_, _, _, rfl⟩ | ⟨_, _, rfl⟩ | ⟨_, _, rfl⟩ := answer_getOrCreateWithCapacity h
  · rfl
  · rw [withRoom, Option.map_map]
    rfl
  · rfl

/-- Only broadcasts change the traffic counters. -/
theorem traffic_of_call {m m' : RoomManager} {op : RoomOp} {result : RoomResult}
    (hop : op.sends = false) (hcall : m.call op = some (result, m')) :
    m'.stats.map traffic = m.stats.map traffic := by
  have hsweep : ∀ p, (m.sweep p).2.stats.map traffic = m.stats.map traffic := by
    intro p
    rw [sweep_eq, Option.map_map]
    cases m.stats with
    | none => rfl
    | some recorder => exact congrArg some (traffic_iterate_roomClosed recorder _)
  cases op with
  | getOrCreate roomId => exact traffic_of_answer (Option.some.inj hcall)
  | getOrCreateWithCapacity roomId capacity => exact traffic_of_answer (Option.some.inj hcall)
  | remove roomId =>
    obtain ⟨_, rfl⟩ := Prod.mk.inj (Option.some.inj hcall)
    cases hget : m.get roomId with
    | some removed =>
      rw [remove_of_get hget, Option.map_map]
      rfl
    | none => rw [remove_of_get_none hget]
  | cleanup =>
    obtain ⟨_, rfl⟩ := Prod.mk.inj (Option.some.inj hcall)
    exact hsweep _
  | cleanupEmpty =>
    obtain ⟨_, rfl⟩ := Prod.mk.inj (Option.some.inj hcall)
    exact hsweep _
  | get | roomCount | totalParticipants =>
    obtain ⟨_, rfl⟩ := Prod.mk.inj (Option.some.inj hcall)
    rfl
  | join | leave | subscribe =>
    obtain ⟨_, _, heq⟩ := Option.map_eq_some_iff.1 hcall
    obtain ⟨_, rfl⟩ := Prod.mk.inj heq
    rfl
  | dropReceiver ref rx =>
    obtain ⟨_, _, heq⟩ := Option.bind_eq_some_iff.1 hcall
    obtain ⟨_, heq⟩ := Option.ite_none_right_eq_some.1 heq
    obtain ⟨_, rfl⟩ := Prod.mk.inj (Option.some.inj heq)
    rfl
  | broadcast ref frame => cases hop

/-! ### What a step adds -/

variable {s s' : InUse} {use : Use} {tr out : List Seen}

/-- A room keeps its id. -/
theorem id_of_step (hstep : listeners.step s use = some (s', out)) {ref : RoomRef}
    {room : Room} (hroom : s.manager.room ref = some room) :
    ∃ room', s'.manager.room ref = some room' ∧ room'.id = room.id := by
  cases step_cases hstep with
  | call hcall => exact id_of_call hcall hroom
  | recv => exact ⟨room, hroom, rfl⟩

/-- The rooms that there were keep their ids, and what is new has not been seen yet. -/
theorem total_step (hheard : Heard s tr) (hstep : listeners.step s use = some (s', out))
    (P : Str → Bool) (f : Listening.Obs Frame → ℕ) :
    total s'.manager (tr ++ out) P f = total s.manager tr P f + total s.manager out P f := by
  have hgrows : Finset.range s.manager.heap.length ⊆ Finset.range s'.manager.heap.length := by
    intro ref href
    obtain ⟨room, hroom⟩ := lt_length_iff.1 (Finset.mem_range.1 href)
    obtain ⟨room', hroom', -⟩ := id_of_step hstep hroom
    exact Finset.mem_range.2 (lt_length_iff.2 ⟨room', hroom'⟩)
  rw [total, total, total, ← Finset.sum_add_distrib]
  refine ((Finset.sum_subset hgrows fun ref _ hnew => ?_).symm.trans (Finset.sum_congr rfl ?_))
  · have hnone : s.manager.room ref = none := by
      rw [← Option.not_isSome_iff_eq_none, Option.isSome_iff_exists, ← lt_length_iff, ← Finset.mem_range]
      exact hnew
    rw [onRoom_append, (listening_of_new hstep hnone).1, (hheard.silent ref hnone).1]
    exact ite_self _
  · intro ref href
    obtain ⟨room, hroom⟩ := lt_length_iff.1 (Finset.mem_range.1 href)
    obtain ⟨room', hroom', hid⟩ := id_of_step hstep hroom
    rw [hroom, hroom', Option.any_some, Option.any_some, hid, onRoom_append, List.map_append,
      List.sum_append]
    split <;> rfl

/-- What a broadcast does to counters, reaching so many receivers or none. -/
def counted (frame : Frame) : Option ℕ → RoomCounters → RoomCounters
  | some n, counters =>
    { counters with
      messagesOut := counters.messagesOut + .ofNat n
      bytesOut := counters.bytesOut + .ofNat frame.len * .ofNat n }
  | none, counters => { counters with drops := counters.drops + 1 }

/-- The counters of the trace after a step that adds nothing. -/
theorem counters_quiet (hheard : Heard s tr)
    (hstep : listeners.step s use = some (s', out))
    (hquiet : ∀ P f, ReadsSends f → total s.manager out P f = 0) (P : Str → Bool) :
    counters s'.manager (tr ++ out) P = counters s.manager tr P := by
  have hsame : ∀ f, ReadsSends f → total s'.manager (tr ++ out) P f = total s.manager tr P f := by
    intro f hf
    rw [total_step hheard hstep, hquiet P f hf, Nat.add_zero]
  rw [counters, counters, hsame _ readsSends.1, hsame _ readsSends.2.1, hsame _ readsSends.2.2]

/-- The counters of the trace after a broadcast. -/
theorem counters_broadcast (hheard : Heard s tr) {ref : RoomRef} {room : Room}
    (hroom : s.manager.room ref = some room) {frame : Frame} {result : Outcome WsError ℕ}
    (hstep : listeners.step s use =
      some (s', [.called (.broadcast ref frame) (.broadcasted result)])) (P : Str → Bool) :
    counters s'.manager (tr ++ [.called (.broadcast ref frame) (.broadcasted result)]) P =
      if P room.id then counted frame result.toOption (counters s.manager tr P)
      else counters s.manager tr P := by
  have hadds := fun f => total_step hheard hstep P f
  simp only [total_broadcast hroom] at hadds
  rw [counters, hadds, hadds, hadds]
  by_cases hid : P room.id = true
  · simp only [if_pos hid]
    cases result.toOption with
    | none =>
      simp only [counters, counted, reachedBy, bytesBy, lostBy, Nat.add_zero, UInt64.ofNat_add]
      rfl
    | some n =>
      simp only [counters, counted, reachedBy, bytesBy, lostBy, Nat.add_zero, UInt64.ofNat_add,
        UInt64.ofNat_mul]
  · simp only [if_neg hid, Nat.add_zero, counters]

/-- What a broadcast records. -/
theorem traffic_broadcast (room : Room) (stats : Option StatsRecorder) (frame : Frame) :
    (room.broadcast stats frame).2.2.map traffic = (stats.map traffic).map fun recorded =>
      (recorded.1.insert room.id (counted frame (room.broadcast stats frame).1.toOption
          ((recorded.1.lookup room.id).getD {})),
        counted frame (room.broadcast stats frame).1.toOption recorded.2) := by
  by_cases hnobody : room.receiverCount = 0
  · rw [Room.broadcast_of_receiverCount_eq_zero hnobody, Option.map_map, Option.map_map]
    rfl
  · rw [Room.broadcast_of_receiverCount_ne_zero hnobody, Option.map_map, Option.map_map]
    rfl

/-- The only call that sends is a broadcast on a handle. -/
theorem broadcast_of_sends {m m' : RoomManager} {op : RoomOp} {result : RoomResult}
    (hop : op.sends = true) (hcall : m.call op = some (result, m')) :
    ∃ ref frame room, op = .broadcast ref frame ∧ m.room ref = some room ∧
      result = .broadcasted (room.broadcast m.stats frame).1 ∧
      m'.stats = (room.broadcast m.stats frame).2.2 := by
  cases op with
  | broadcast ref frame =>
    obtain ⟨sent, hsent, heq⟩ := Option.map_eq_some_iff.1 hcall
    obtain ⟨rfl, rfl⟩ := Prod.mk.inj heq
    obtain ⟨room, hroom, rfl⟩ := Option.map_eq_some_iff.1 hsent
    exact ⟨ref, frame, room, rfl, hroom, rfl, rfl⟩
  | _ => cases hop

/-- A manager keeps its recorder. -/
theorem stats_isSome_of_step (hstep : listeners.step s use = some (s', out)) :
    s'.manager.stats.isSome = s.manager.stats.isSome := by
  cases step_cases hstep with
  | recv => rfl
  | @call op result m' hcall =>
    cases hop : op.sends with
    | false =>
      have htraffic := congrArg Option.isSome (traffic_of_call hop hcall)
      rwa [Option.isSome_map, Option.isSome_map] at htraffic
    | true =>
      obtain ⟨ref, frame, room, rfl, hroom, rfl, hstats⟩ := broadcast_of_sends hop hcall
      have htraffic := congrArg Option.isSome (traffic_broadcast room s.manager.stats frame)
      rw [Option.isSome_map, Option.isSome_map, Option.isSome_map] at htraffic
      exact (congrArg Option.isSome hstats).trans htraffic

/-- Every step is recorded. -/
theorem Recorded.step (h : Recorded s.manager tr) (hheard : Heard s tr)
    (hstep : listeners.step s use = some (s', out)) : Recorded s'.manager (tr ++ out) := by
  have hquiet : s'.manager.stats.map traffic = s.manager.stats.map traffic →
      (∀ P f, ReadsSends f → total s.manager out P f = 0) → Recorded s'.manager (tr ++ out) := by
    intro hstats hzero recorded hmem
    rw [hstats] at hmem
    simp only [counters_quiet hheard hstep hzero]
    exact h recorded hmem
  cases step_cases hstep with
  | @recv ref rx => exact hquiet rfl fun P f hf => total_received _ ref rx _ P hf
  | @call op result m' hcall =>
    cases hop : op.sends with
    | false => exact hquiet (traffic_of_call hop hcall) fun P f hf => total_called hop _ P hf
    | true =>
      obtain ⟨ref, frame, room, rfl, hroom, rfl, hstats⟩ := broadcast_of_sends hop hcall
      intro recorded hmem
      rw [hstats, traffic_broadcast] at hmem
      obtain ⟨before, hbefore, rfl⟩ := Option.map_eq_some_iff.1 hmem
      obtain ⟨hrooms, hglobals⟩ := h before hbefore
      have hcounters := counters_broadcast hheard hroom hstep
      refine ⟨fun roomId => ?_, ?_⟩
      · rw [hcounters, Map.lookup_insert, ← hrooms]
        by_cases hid : room.id = roomId
        · rw [if_pos hid.symm, if_pos (decide_eq_true hid), Option.getD_some, hid]
        · rw [if_neg fun heq => hid heq.symm, if_neg (by simpa using hid)]
      · rw [hcounters, hglobals]
        rfl

/-! ### Runs -/

/-- After every run of a manager with a new recorder, each room id's counters are what its
broadcasts have come to, whichever rooms were made under the id, and the global ones are the same
over all ids. So the messages sent out are those that receivers have read, missed and left unread,
and the drops are the broadcasts that found nobody, as `u64`. -/
theorem recorder_accounts (broadcastCapacity : ℕ) {uses : List Use}
    (hrun : listeners.run uses (.start (withStats broadcastCapacity .new), []) =
      some (s, tr)) :
    ∃ recorder, s.manager.stats = some recorder ∧
      (∀ roomId, ((traffic recorder).1.lookup roomId).getD {} =
        counters s.manager tr (· = roomId)) ∧
      (traffic recorder).2 = counters s.manager tr (fun _ => true) ∧
      ∀ P, total s.manager tr P reachedBy = ∑ ref ∈ Finset.range s.manager.heap.length,
        if (s.manager.room ref).any (fun room => P room.id) then accountedFor s tr ref else 0 := by
  have hinv := Machine.run_induct_all
    (P := fun s tr => Heard s tr ∧ Recorded s.manager tr ∧ s.manager.stats.isSome = true)
    (fun s tr use s' out h hstep => by
      obtain ⟨hheard, hrecorded, hstats⟩ := h
      refine ⟨hheard.step hstep, hrecorded.step hheard hstep, ?_⟩
      exact (stats_isSome_of_step hstep).trans hstats)
    hrun ⟨heard_start broadcastCapacity _, fun recorded hmem => by cases hmem; exact ⟨fun _ => rfl, rfl⟩, rfl⟩
  obtain ⟨hheard, hrecorded, hstats⟩ := hinv
  obtain ⟨recorder, hrecorder⟩ := Option.isSome_iff_exists.1 hstats
  obtain ⟨hrooms, hglobals⟩ := hrecorded (traffic recorder) (by rw [hrecorder]; rfl)
  exact ⟨recorder, hrecorder, hrooms, hglobals, hheard.total_reachedBy⟩

end AnyChannel

/-- A greeting before anybody listens, and two bytes to two receivers, one of which reads them. -/
def lateListeners : List Use :=
  [.call (.getOrCreate ['l']), .call (.broadcast 0 (.text ['h', 'i'])), .call (.subscribe 0),
    .call (.subscribe 0), .call (.broadcast 0 (.binary [1, 2])), .recv 0 1]

/-- The greeting is a drop; two messages and four bytes went out. -/
theorem recorder_accounts_lateListeners : ∃ s tr recorder,
    listeners.run lateListeners (.start (withStats 16 .new), []) = some (s, tr) ∧
    s.manager.stats = some recorder ∧
    (traffic recorder).2 = counters s.manager tr (fun _ => true) ∧
    (traffic recorder).2 = { messagesOut := 2, bytesOut := 4, drops := 1 } := by
  have hseen : (listeners.run lateListeners (.start (withStats 16 .new), [])).map
      (fun c => c.1.manager.stats.map fun recorder => (traffic recorder).2) =
        some (some { messagesOut := 2, bytesOut := 4, drops := 1 }) := by decide
  obtain ⟨⟨s, tr⟩, hrun, heq⟩ := Option.map_eq_some_iff.1 hseen
  obtain ⟨recorder, hrecorder, -, hglobals, -⟩ := recorder_accounts 16 hrun
  rw [hrecorder] at heq
  exact ⟨s, tr, recorder, hrun, hrecorder, hglobals, Option.some.inj heq⟩

end WsKit.RoomManager
