import WsKit.Base.Threads
import WsKit.StatsThreads
import Mathlib.Algebra.BigOperators.Group.List.Basic
import Mathlib.Algebra.BigOperators.Ring.List

/-!
# The stats roll-up

What is read off a recorder and grows with each addition by its amount, modulo `2 ^ 64`, equals
what the calls recorded once none is in progress. In between it lags by the accesses that the
threads still have to make. A room's counter, the total over all rooms and the global counter are
three such readings.
-/

namespace WsKit.StatsThreads

open Base

variable {ι : Type*}

/-- What an access adds to a counter, in the places that are counted. -/
def Access.weight (counts : Option Str → Bool) (c : Counter) : Access → ℕ
  | .entry _ => 0
  | .add room c' n => if counts room ∧ c' = c then n.toNat else 0

/-- What accesses add in all. -/
def total (counts : Option Str → Bool) (c : Counter) (accesses : List Access) : ℕ :=
  (accesses.map (Access.weight counts c)).sum

/-- A reading of the recorder that follows its additions. -/
structure Meter where
  counts : Option Str → Bool
  counter : Counter
  read : StatsRecorder → ℕ
  read_new : read .new = 0
  read_roomOpened : ∀ stats, read stats.roomOpened = read stats
  read_roomClosed : ∀ stats, read stats.roomClosed = read stats
  read_perform : ∀ stats (access : Access),
    read (access.perform stats) % 2 ^ 64 = (read stats + access.weight counts counter) % 2 ^ 64

/-- What the calls that returned were to add. -/
def Meter.recorded (meter : Meter) (tr : List (Obs ι)) : ℕ :=
  (tr.map fun o => total meter.counts meter.counter o.2.accesses).sum

section Balance

/-- What was read and what the threads still have to add is what they returned from and what they
have begun. -/
def Balanced [Fintype ι] (meter : Meter) (s : State ι) (tr : List (Obs ι)) : Prop :=
  (meter.read s.stats + ∑ u, total meter.counts meter.counter (s.pc u).remaining) % 2 ^ 64 =
    (meter.recorded tr + ∑ u, total meter.counts meter.counter (s.pc u).begun) % 2 ^ 64

variable [Fintype ι] [DecidableEq ι]

/-- A step of one thread keeps the balance when what it reads and has left to add changes by what
it returns from and begins. -/
theorem Balanced.move {meter : Meter} {s s' : State ι} {tr out : List (Obs ι)}
    (h : Balanced meter s tr) {t : ι} {pc : Pc} (hpc : s'.pc = Function.update s.pc t pc)
    (hmove : (meter.read s'.stats + total meter.counts meter.counter pc.remaining +
        total meter.counts meter.counter (s.pc t).begun) % 2 ^ 64 =
      (meter.read s.stats + total meter.counts meter.counter (s.pc t).remaining +
        (meter.recorded out + total meter.counts meter.counter pc.begun)) % 2 ^ 64) :
    Balanced meter s' (tr ++ out) := by
  have hrecorded : meter.recorded (tr ++ out) = meter.recorded tr + meter.recorded out := by
    rw [Meter.recorded, List.map_append, List.sum_append]
    rfl
  obtain ⟨others, hsum, hupdate⟩ :=
    exists_sum_update (fun p => total meter.counts meter.counter p.remaining) s.pc t
  obtain ⟨others', hsum', hupdate'⟩ :=
    exists_sum_update (fun p => total meter.counts meter.counter p.begun) s.pc t
  rw [Balanced, hsum, hsum'] at h
  rw [Balanced, hrecorded, hpc, hupdate, hupdate']
  omega

/-- Every step keeps the balance. -/
theorem Balanced.step {meter : Meter} {s s' : State ι} {next : Option (ι × Access × Returned)}
    {tr out : List (Obs ι)} (h : Balanced meter s tr) (hstep : Moves s next s' out) :
    Balanced meter s' (tr ++ out) := by
  cases hstep with
  | shared hpc hstats =>
    have hread : meter.read s'.stats = meter.read s.stats := by
      rcases hstats with hstats | hstats | hstats
      · rw [hstats]
      · rw [hstats, meter.read_roomOpened]
      · rw [hstats, meter.read_roomClosed]
    rw [Balanced, hread, hpc, List.append_nil]
    exact h
  | begins hbefore hnone hafter hpc hstats =>
    apply h.move hpc
    rw [hstats, hbefore, hnone, hafter]
    simp [Meter.recorded, total]
  | @performs _ _ access remaining returns hbefore hpc hstats =>
    apply h.move hpc
    have hread := meter.read_perform s.stats access
    rw [hstats, hbefore]
    simp only [Pc.remaining, Pc.begun, total, List.map_cons, List.sum_cons, Meter.recorded,
      List.map_nil, List.sum_nil]
    omega
  | returns hremaining hbegun hpc hstats =>
    apply h.move hpc
    rw [hstats, hremaining, hbegun]
    simp [Meter.recorded, total, Pc.remaining, Pc.begun]

/-- In every run, a reading is what the calls recorded whenever none is in progress. -/
theorem Meter.read_of_idle [ChannelApi Frame] (meter : Meter) (overflowChecks : Bool)
    {es : List (Event ι)} {s : State ι} {tr : List (Obs ι)}
    (hrun : (machine ι overflowChecks).run es (start, []) = some (s, tr))
    (hidle : ∀ t, s.pc t = .idle) : meter.read s.stats % 2 ^ 64 = meter.recorded tr % 2 ^ 64 := by
  have hbalanced : Balanced meter s tr := by
    refine Machine.run_induct_all (P := fun s tr => Balanced meter s tr)
      (fun s tr e s' out hP he => hP.step (moves_of_step he)) hrun ?_
    have hnone : ∑ u : ι, total meter.counts meter.counter ((start : State ι).pc u).remaining = 0 :=
      Finset.sum_eq_zero fun u _ => rfl
    have hbegun : ∑ u : ι, total meter.counts meter.counter ((start : State ι).pc u).begun = 0 :=
      Finset.sum_eq_zero fun u _ => rfl
    rw [Balanced, hnone, hbegun]
    exact congrArg (fun n => (n + 0) % 2 ^ 64) meter.read_new
  have hnone : ∑ u, total meter.counts meter.counter (s.pc u).remaining = 0 :=
    Finset.sum_eq_zero fun u _ => by rw [hidle u]; rfl
  have hbegun : ∑ u, total meter.counts meter.counter (s.pc u).begun = 0 :=
    Finset.sum_eq_zero fun u _ => by rw [hidle u]; rfl
  rwa [Balanced, hnone, hbegun] at hbalanced

end Balance

/-! ### Three readings -/

/-- A room's counters after those of a room were updated. -/
theorem lookup_updateRoom (stats : StatsRecorder) (room room' : Str)
    (f : RoomCounters → RoomCounters) :
    ((stats.updateRoom room f).rooms.lookup room').getD {} =
      if room' = room then f ((stats.rooms.lookup room').getD {})
      else (stats.rooms.lookup room').getD {} := by
  rw [StatsRecorder.updateRoom, Map.lookup_insert]
  split
  · next h => rw [h, Option.getD_some]
  · rfl

/-- Counters at zero. -/
theorem read_default (c : Counter) : (RoomCounters.read {} c).toNat = 0 := by cases c <;> rfl

/-- What an addition to a counter of a room changes in its values, modulo `2 ^ 64`. -/
theorem toNat_read_fetchAdd (counters : RoomCounters) (c c' : Counter) (n : UInt64) :
    ((counters.fetchAdd c n).read c').toNat % 2 ^ 64 =
      ((counters.read c').toNat + if c = c' then n.toNat else 0) % 2 ^ 64 := by
  rw [RoomCounters.read_fetchAdd]
  split
  · rw [UInt64.toNat_add, Nat.mod_mod]
  · rfl

/-- A counter of a room; a room without an entry has recorded nothing. -/
def roomMeter (room : Str) (c : Counter) : Meter where
  counts := fun place => place = some room
  counter := c
  read stats := (((stats.rooms.lookup room).getD {}).read c).toNat
  read_new := read_default c
  read_roomOpened _ := rfl
  read_roomClosed _ := rfl
  read_perform := by
    intro stats access
    cases access with
    | entry room' =>
      rw [Access.perform, lookup_updateRoom]
      split <;> rfl
    | add place c' n =>
      cases place with
      | none => simp [Access.perform, Access.weight]
      | some room' =>
        rw [Access.perform, lookup_updateRoom]
        by_cases hroom : room = room'
        · rw [if_pos hroom, toNat_read_fetchAdd]
          simp [Access.weight, hroom]
        · rw [if_neg hroom]
          simp [Access.weight, Ne.symm hroom]

/-- A counter summed over all rooms. -/
def roomsTotal (stats : StatsRecorder) (c : Counter) : ℕ :=
  ((Map.values stats.rooms).map fun counters => (counters.read c).toNat).sum

/-- What an update of a room changes in the total. -/
theorem roomsTotal_updateRoom (stats : StatsRecorder) (room : Str) (f : RoomCounters → RoomCounters)
    (c : Counter) :
    roomsTotal (stats.updateRoom room f) c +
        (((stats.rooms.lookup room).getD {}).read c).toNat =
      roomsTotal stats c + ((f ((stats.rooms.lookup room).getD {})).read c).toNat := by
  have hinsert := Map.sum_values_insert stats.rooms room (f ((stats.rooms.lookup room).getD {}))
    fun counters => (counters.read c).toNat
  have hold : (stats.rooms.lookup room).elim 0 (fun counters => (counters.read c).toNat) =
      (((stats.rooms.lookup room).getD {}).read c).toNat := by
    cases stats.rooms.lookup room with
    | none => exact (read_default c).symm
    | some counters => rfl
  rw [hold] at hinsert
  exact hinsert

/-- The total of a counter over all rooms. -/
def roomsMeter (c : Counter) : Meter where
  counts := Option.isSome
  counter := c
  read stats := roomsTotal stats c
  read_new := rfl
  read_roomOpened _ := rfl
  read_roomClosed _ := rfl
  read_perform := by
    intro stats access
    cases access with
    | entry room =>
      have hupdate := roomsTotal_updateRoom stats room (fun counters => counters) c
      rw [Access.perform, Access.weight]
      omega
    | add place c' n =>
      cases place with
      | none => simp [Access.perform, Access.weight, roomsTotal]
      | some room =>
        have hupdate := roomsTotal_updateRoom stats room (fun counters => counters.fetchAdd c' n) c
        have hadded := toNat_read_fetchAdd ((stats.rooms.lookup room).getD {}) c' c n
        rw [Access.perform, Access.weight]
        simp only [Option.isSome_some, true_and]
        omega

/-- A global counter. -/
def globalMeter (c : Counter) : Meter where
  counts := Option.isNone
  counter := c
  read stats := (stats.snapshot.read c).toNat
  read_new := by cases c <;> rfl
  read_roomOpened _ := by cases c <;> rfl
  read_roomClosed _ := by cases c <;> rfl
  read_perform := by
    intro stats access
    cases access with
    | entry room => cases c <;> rfl
    | add place c' n =>
      cases place with
      | some room => cases c <;> simp [Access.perform, Access.weight, StatsRecorder.updateRoom,
          StatsRecorder.snapshot, Stats.read]
      | none => cases c <;> cases c' <;> simp [Access.perform, Access.weight, Globals.fetchAdd,
          StatsRecorder.snapshot, Stats.read]

/-! ### What the calls recorded -/

/-- The room that a recording is attributed to; the others are global only. -/
def Call.room : Call → Option Str
  | .recordRoomMessageIn room _ => some room
  | .recordRoomMessageOut room _ _ => some room
  | .recordRoomDrop room => some room
  | _ => none

/-- The amounts of an inbound message. -/
def inbound (bytes : ℕ) : Counter → ℕ
  | .messagesIn => 1
  | .bytesIn => bytes
  | _ => 0

/-- The amounts of outbound messages. -/
def outbound (count bytes : ℕ) : Counter → ℕ
  | .messagesOut => count
  | .bytesOut => bytes
  | _ => 0

/-- The amounts of a drop. -/
def dropped : Counter → ℕ
  | .drops => 1
  | _ => 0

/-- The amounts that a call records. -/
def Call.amount : Call → Counter → ℕ
  | .recordMessageIn bytes => inbound bytes.toNat
  | .recordMessageOut count bytes => outbound count.toNat bytes.toNat
  | .recordDrop => dropped
  | .recordRoomMessageIn _ bytes => inbound bytes.toNat
  | .recordRoomMessageOut _ count bytes => outbound count.toNat bytes.toNat
  | .recordRoomDrop _ => dropped

/-- The room that a call was about. -/
def Returned.room : Returned → Option Str
  | .recorded c => c.room
  | .broadcasted room _ _ => some room

/-- The amounts of a call that returned: a broadcast that reached `n` receivers counts for `n`
messages of its frame's length and no drop, and one that found none for a drop. -/
def Returned.amount : Returned → Counter → ℕ
  | .recorded call => call.amount
  | .broadcasted _ frame (.ok n) => outbound n (n * frame.len)
  | .broadcasted _ _ (.error (.failed .broadcastFull)) => dropped
  | .broadcasted _ _ (.error _) => fun _ => 0

/-- What was recorded for a room. -/
def recordedFor (tr : List (Obs ι)) (room : Str) (c : Counter) : ℕ :=
  (tr.map fun o => if o.2.room = some room then o.2.amount c else 0).sum

/-- What was recorded by the calls that are global only. -/
def recordedGlobally (tr : List (Obs ι)) (c : Counter) : ℕ :=
  (tr.map fun o => if o.2.room = none then o.2.amount c else 0).sum

/-- The amounts of a call in the places that are counted, where a room's call counts twice. -/
def counted (counts : Option Str → Bool) (room : Option Str) (amount : ℕ) : ℕ :=
  (if counts none then amount else 0) + room.elim 0 fun room => if counts (some room) then amount else 0

/-- The accesses of a call add its amounts. -/
theorem total_accesses_call (counts : Option Str → Bool) (c : Counter) (call : Call) :
    total counts c call.accesses = counted counts call.room (call.amount c) := by
  cases call <;> cases c <;> simp [total, Call.accesses, Access.weight, counted, Call.room, Call.amount,
    inbound, outbound, dropped, Nat.add_comm]

/-- The bytes of a broadcast, as the code computes them. -/
theorem toNat_ofNat_mul (a b : ℕ) :
    (UInt64.ofNat a * UInt64.ofNat b).toNat % 2 ^ 64 = (b * a) % 2 ^ 64 := by
  rw [UInt64.toNat_mul, UInt64.toNat_ofNat', UInt64.toNat_ofNat', Nat.mod_mod, ← Nat.mul_mod,
    Nat.mul_comm]

/-- Amounts that agree modulo `2 ^ 64` are counted alike. -/
theorem counted_congr {counts : Option Str → Bool} {room : Option Str} {a b : ℕ}
    (h : a % 2 ^ 64 = b % 2 ^ 64) : counted counts room a % 2 ^ 64 = counted counts room b % 2 ^ 64 := by
  rw [counted, counted]
  cases room with
  | none =>
    simp only [Option.elim_none]
    split
    · omega
    · rfl
  | some room =>
    simp only [Option.elim_some]
    split
    · split <;> omega
    · split <;> omega

/-- A broadcast that fails otherwise records nothing. -/
theorem accesses_of_error {fault : Fault WsError} (h : fault ≠ .failed .broadcastFull) (room : Str)
    (frame : Frame) :
    (Returned.broadcasted room frame (.error fault)).accesses = [] ∧
      ∀ c, (Returned.broadcasted room frame (.error fault)).amount c = 0 := by
  cases fault with
  | panicked => exact ⟨rfl, fun c => rfl⟩
  | failed error =>
    cases error with
    | broadcastFull => exact (h rfl).elim
    | _ => exact ⟨rfl, fun c => rfl⟩

/-- The accesses before a return add the amounts of the call, modulo `2 ^ 64`. -/
theorem total_accesses (counts : Option Str → Bool) (c : Counter) (returns : Returned) :
    total counts c returns.accesses % 2 ^ 64 =
      counted counts returns.room (returns.amount c) % 2 ^ 64 := by
  cases returns with
  | recorded call => exact congrArg (· % 2 ^ 64) (total_accesses_call counts c call)
  | broadcasted room frame result =>
    cases result with
    | ok n =>
      rw [Returned.accesses, total_accesses_call]
      apply counted_congr
      cases c with
      | messagesOut =>
        have hcount : (UInt64.ofNat n).toNat % 2 ^ 64 = n % 2 ^ 64 := by
          rw [UInt64.toNat_ofNat', Nat.mod_mod]
        exact hcount
      | bytesOut => exact toNat_ofNat_mul frame.len n
      | messagesIn => rfl
      | bytesIn => rfl
      | drops => rfl
    | error fault =>
      by_cases hfull : fault = .failed .broadcastFull
      · rw [hfull, Returned.accesses, total_accesses_call]
        cases c <;> rfl
      · obtain ⟨hnone, hamount⟩ := accesses_of_error hfull room frame
        rw [hnone, hamount]
        simp [total, counted, Returned.room]

/-- What a reading comes to, by the amounts of the calls. -/
theorem Meter.recorded_mod (meter : Meter) (tr : List (Obs ι)) :
    meter.recorded tr % 2 ^ 64 =
      (tr.map fun o => counted meter.counts o.2.room (o.2.amount meter.counter)).sum % 2 ^ 64 := by
  induction tr with
  | nil => rfl
  | cons o tr ih =>
    have hfirst := total_accesses meter.counts meter.counter o.2
    have hsplit : meter.recorded (o :: tr) =
      total meter.counts meter.counter o.2.accesses + meter.recorded tr := rfl
    rw [hsplit, List.map_cons, List.sum_cons]
    omega

/-- The recordings for a room are those counted by its reading. -/
theorem sum_counted_room (tr : List (Obs ι)) (room : Str) (c : Counter) :
    (tr.map fun o => counted (fun place => place = some room) o.2.room (o.2.amount c)).sum =
      recordedFor tr room c := by
  refine congrArg List.sum (List.map_congr_left fun o _ => ?_)
  cases hroom : o.2.room <;> simp [counted]

/-- The global readings count each room's recordings and those that are global only. -/
theorem sum_counted_global (tr : List (Obs ι)) (c : Counter) :
    (tr.map fun o => counted Option.isNone o.2.room (o.2.amount c)).sum =
      (tr.map fun o => counted Option.isSome o.2.room (o.2.amount c)).sum +
        recordedGlobally tr c := by
  rw [recordedGlobally, ← List.sum_map_add]
  refine congrArg List.sum (List.map_congr_left fun o _ => ?_)
  cases hroom : o.2.room <;> simp [counted]

/-- A counter whose value is known modulo `2 ^ 64`. -/
theorem eq_ofNat_of_mod {a : UInt64} {n : ℕ} (h : a.toNat % 2 ^ 64 = n % 2 ^ 64) : a = .ofNat n := by
  apply UInt64.toNat_inj.1
  rw [UInt64.toNat_ofNat', ← h, Nat.mod_eq_of_lt a.toNat_lt]

variable [Fintype ι] [DecidableEq ι]

/-- In every run, whenever no call is in progress, a room's counters are the sums of what was
recorded for its id, and the global counters are the sums over all rooms and of what was recorded
globally only, modulo `2 ^ 64`. -/
theorem rollUp [ChannelApi Frame] (overflowChecks : Bool) {es : List (Event ι)} {s : State ι}
    {tr : List (Obs ι)}
    (hrun : (machine ι overflowChecks).run es (start, []) = some (s, tr))
    (hidle : ∀ t, s.pc t = .idle) (c : Counter) :
    (∀ room, ((s.stats.snapshot.perRoom.lookup room).getD {}).read c =
      .ofNat (recordedFor tr room c)) ∧
    s.stats.snapshot.read c =
      .ofNat (((Map.values s.stats.snapshot.perRoom).map fun counters => (counters.read c).toNat).sum +
        recordedGlobally tr c) := by
  constructor
  · intro room
    have hread := (roomMeter room c).read_of_idle overflowChecks hrun hidle
    rw [Meter.recorded_mod] at hread
    exact eq_ofNat_of_mod (hread.trans (congrArg (· % 2 ^ 64) (sum_counted_room tr room c)))
  · have hrooms : roomsTotal s.stats c % 2 ^ 64 =
        (tr.map fun o => counted Option.isSome o.2.room (o.2.amount c)).sum % 2 ^ 64 :=
      ((roomsMeter c).read_of_idle overflowChecks hrun hidle).trans ((roomsMeter c).recorded_mod tr)
    have hglobal : (s.stats.snapshot.read c).toNat % 2 ^ 64 =
        (tr.map fun o => counted Option.isNone o.2.room (o.2.amount c)).sum % 2 ^ 64 :=
      ((globalMeter c).read_of_idle overflowChecks hrun hidle).trans ((globalMeter c).recorded_mod tr)
    rw [sum_counted_global, Nat.add_mod, ← hrooms, ← Nat.add_mod] at hglobal
    exact eq_ofNat_of_mod hglobal

/-- One thread broadcasts in the lobby while another records outbound messages of its own. -/
def lobbyTraffic (t u : ι) : List (Event ι) :=
  [.make ['l'] 16, .use (.subscribe 0), .broadcast t 0 (.text ['h', 'i']),
    .call u (.recordMessageOut 3 12), .advance t, .advance u, .advance t, .advance t, .advance u,
    .advance t, .advance t, .advance t, .advance u, .advance t]

/-- Two bytes went out in the lobby. -/
theorem rollUp_lobbyTraffic : ∃ s tr,
    (machine (Fin 2) true).run (lobbyTraffic 0 1) (start, []) = some (s, tr) ∧
      recordedFor tr ['l'] .bytesOut = 2 ∧
      ((s.stats.snapshot.perRoom.lookup ['l']).getD {}).read .bytesOut = .ofNat 2 := by
  have hseen : ((machine (Fin 2) true).run (lobbyTraffic 0 1) (start, [])).map
      (fun c => (c.1.pc 0, c.1.pc 1, recordedFor c.2 ['l'] .bytesOut)) = some (.idle, .idle, 2) := by
    decide
  obtain ⟨⟨s, tr⟩, hrun, heq⟩ := Option.map_eq_some_iff.1 hseen
  simp only [Prod.mk.injEq] at heq
  obtain ⟨hfirst, hsecond, hbytes⟩ := heq
  refine ⟨s, tr, hrun, hbytes, ?_⟩
  rw [(rollUp true hrun (Fin.forall_fin_two.2 ⟨hfirst, hsecond⟩) .bytesOut).1 ['l'], hbytes]

end WsKit.StatsThreads
