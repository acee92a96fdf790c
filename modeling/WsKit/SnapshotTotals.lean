import Mathlib.Algebra.Order.BigOperators.Group.Finset
import WsKit.Snapshots

/-!
# Room traffic in a snapshot

A recording adds to its room first and to the global counter afterwards, and a snapshot loads the
rooms first and the global counter afterwards. So the rooms' counters of a snapshot add up to no
more than the global one exactly when, at the load of the global counter, recordings in progress
owe it no more than global-only recordings have added and rooms have gained since their loads.
-/

namespace WsKit.Snapshots

open Base
open StatsThreads (Access Call Returned total nextAccess)

/-- The value of a place's counter. -/
def valueAt (recorder : StatsRecorder) : Option Str → Counter → UInt64
  | none, c => recorder.snapshot.read c
  | some room, c => ((recorder.rooms.lookup room).getD {}).read c

/-- The rooms that a snapshot has seen so far. -/
def Reader.perRoom : Reader → Map Str RoomCounters
  | .entering _ perRoom => perRoom
  | .visiting _ _ perRoom => perRoom
  | .loading _ stats => stats.perRoom
  | _ => ∅

variable {ι κ : Type*} [DecidableEq ι] [DecidableEq κ]

/-- The traces agree with the atomics, with what the snapshots have loaded of the rooms, and with
what the calls in progress owe. -/
structure Tracks [Fintype ι] (s : State ι κ) (tr : List (Obs ι κ)) : Prop where
  values : ∀ place c, valueAt s.threads.stats place c = .ofNat (ledger place c tr).count
  seen : ∀ k room c, s.reader k ≠ .done → (((s.reader k).perRoom.lookup room).getD {}).read c =
    .ofNat ((ledger (some room) c tr).taken (.inr k)).value
  suffix : ∀ t remaining returns, s.threads.pc t = .recording remaining returns →
    remaining <:+ returns.accesses
  conserved : ∀ c, added Option.isSome c tr = fromRooms c tr + ∑ t, owed c (s.threads.pc t)
  fields : ∀ k fields stats, s.reader k = .loading fields stats → fields <:+ Field.all

/-! ### Recordings -/

/-- The meter of a place's counter. -/
def placeMeter : Option Str → Counter → StatsThreads.Meter
  | none => StatsThreads.globalMeter
  | some room => StatsThreads.roomMeter room

theorem placeMeter_read (place : Option Str) (c : Counter) (recorder : StatsRecorder) :
    (placeMeter place c).read recorder = (valueAt recorder place c).toNat := by
  cases place <;> rfl

theorem placeMeter_weight (place : Option Str) (c : Counter) (access : Access) :
    access.weight (placeMeter place c).counts (placeMeter place c).counter =
      access.weight (countsAt place) c := by
  cases place <;> rfl

/-- An access adds its weight to a place's counter, wrapping. -/
theorem valueAt_perform {recorder : StatsRecorder} {place : Option Str} {c : Counter} {n : ℕ}
    (h : valueAt recorder place c = .ofNat n) (access : Access) :
    valueAt (access.perform recorder) place c = .ofNat (n + access.weight (countsAt place) c) := by
  have hread := (placeMeter place c).read_perform recorder access
  rw [placeMeter_read, placeMeter_read, placeMeter_weight, h, UInt64.toNat_ofNat'] at hread
  apply StatsThreads.eq_ofNat_of_mod
  rw [hread]
  omega

/-- A call that owes nothing: it has made no access, or all of them. -/
theorem owed_of_whole {pc : StatsThreads.Pc} (h : pc.remaining = pc.begun) (c : Counter) :
    owed c pc = 0 := by
  cases pc with
  | recording remaining returns =>
    obtain rfl : remaining = returns.accesses := h
    exact owed_accesses c returns
  | _ => rfl

theorem owed_of_remaining {pc : StatsThreads.Pc} (h : pc.remaining = []) (c : Counter) :
    owed c pc = 0 := by
  cases pc with
  | recording remaining returns =>
    obtain rfl : remaining = [] := h
    simp [owed, total]
  | _ => rfl

omit [DecidableEq ι] [DecidableEq κ] in
/-- Where nothing is performed, nothing is added. -/
theorem added_eq_zero {tr : List (Obs ι κ)} (h : performed tr = []) (counts : Option Str → Bool)
    (c : Counter) : added counts c tr = 0 ∧ fromRooms c tr = 0 := by
  rw [added, fromRooms, h]
  exact ⟨rfl, rfl⟩

variable [Fintype ι]

/-- A thread that moves within its call keeps what is left of it at the call's end. -/
theorem Tracks.suffix_update {s : State ι κ} {tr : List (Obs ι κ)} (h : Tracks s tr) (t : ι)
    {pc : StatsThreads.Pc}
    (hsuffix : ∀ remaining returns, pc = .recording remaining returns →
      remaining <:+ returns.accesses) (u : ι) (remaining : List Access) (returns : Returned)
    (hu : Function.update s.threads.pc t pc u = .recording remaining returns) :
    remaining <:+ returns.accesses := by
  by_cases hut : u = t
  · rw [hut, Function.update_self] at hu
    exact hsuffix remaining returns hu
  · rw [Function.update_of_ne hut] at hu
    exact h.suffix u remaining returns hu

/-- A step of the threads that adds nothing. -/
theorem Tracks.quiet {s s' : State ι κ} {tr out : List (Obs ι κ)} (h : Tracks s tr)
    (hmarks : ∀ place c, marks place c out = []) (hperformed : performed out = [])
    (hreader : s'.reader = s.reader)
    (hvalues : ∀ place c, valueAt s'.threads.stats place c = valueAt s.threads.stats place c)
    (hsuffix : ∀ t remaining returns, s'.threads.pc t = .recording remaining returns →
      remaining <:+ returns.accesses)
    (howed : ∀ c, ∑ t, owed c (s'.threads.pc t) = ∑ t, owed c (s.threads.pc t)) :
    Tracks s' (tr ++ out) := by
  have hledger : ∀ place c, ledger place c (tr ++ out) = ledger place c tr := by
    intro place c
    rw [ledger_append, hmarks]
    rfl
  refine ⟨fun place c => ?_, fun k room c hdone => ?_, hsuffix, fun c => ?_, ?_⟩
  · rw [hledger, hvalues]
    exact h.values place c
  · rw [hreader] at hdone ⊢
    rw [hledger]
    exact h.seen k room c hdone
  · obtain ⟨hadded, hfrom⟩ := added_eq_zero hperformed Option.isSome c
    rw [added_append, fromRooms_append, hadded, hfrom, howed]
    exact h.conserved c
  · rw [hreader]
    exact h.fields

/-- A step of the threads that makes an access. -/
theorem Tracks.performs {s s' : State ι κ} {tr : List (Obs ι κ)} {t : ι} {access : Access}
    {remaining : List Access} {returns : Returned} (h : Tracks s tr)
    (hpc : s.threads.pc t = .recording (access :: remaining) returns)
    (hreader : s'.reader = s.reader) (hstats : s'.threads.stats = access.perform s.threads.stats)
    (hpc' : s'.threads.pc = Function.update s.threads.pc t (.recording remaining returns)) :
    Tracks s' (tr ++ [.performed t access returns]) := by
  have hsuffix := h.suffix t _ _ hpc
  refine ⟨fun place c => ?_, fun k room c hdone => ?_, fun u rest returns' hu => ?_, fun c => ?_, ?_⟩
  · rw [hstats, ledger_append]
    exact valueAt_perform (h.values place c) access
  · rw [hreader] at hdone ⊢
    rw [ledger_append]
    exact h.seen k room c hdone
  · rw [hpc'] at hu
    refine h.suffix_update t (fun remaining' returns' heq => ?_) u rest returns' hu
    cases heq
    exact (List.suffix_cons access remaining).trans hsuffix
  · have howed := h.conserved c
    have hperform := owed_perform hsuffix c
    obtain ⟨others, hsum, hupdate⟩ := exists_sum_update (owed c) s.threads.pc t
    have hadded : added Option.isSome c [Obs.performed (ι := ι) (κ := κ) t access returns] =
        access.weight Option.isSome c := by simp [added, performed]
    have hfrom : fromRooms c [Obs.performed (ι := ι) (κ := κ) t access returns] =
        if returns.room = none then 0 else access.weight Option.isNone c := by
      simp [fromRooms, performed]
    rw [hsum, hpc] at howed
    rw [added_append, fromRooms_append, hadded, hfrom, hpc', hupdate]
    omega
  · rw [hreader]
    exact h.fields

/-- Every step of the threads keeps the accounts. -/
theorem Tracks.thread [ChannelApi Frame] {overflowChecks : Bool} {s : State ι κ}
    {tr : List (Obs ι κ)} {e : StatsThreads.Event ι} {threads : StatsThreads.State ι} {out : List (StatsThreads.Obs ι)}
    (h : Tracks s tr) (hstep : StatsThreads.step overflowChecks s.threads e = some (threads, out)) :
    Tracks { s with threads } (tr ++ shown s.threads e out) := by
  have hmoves := StatsThreads.moves_of_step hstep
  have hreturned : ∀ place c, marks place c (out.map fun o => Obs.returned (κ := κ) o.1 o.2) = [] := by
    intro place c
    rw [marks, List.flatMap_eq_nil_iff]
    intro o ho
    obtain ⟨o', -, rfl⟩ := List.mem_map.1 ho
    rfl
  have hnothing : performed (out.map fun o => Obs.returned (κ := κ) o.1 o.2) = [] := by
    rw [performed, List.filterMap_eq_nil_iff]
    intro o ho
    obtain ⟨o', -, rfl⟩ := List.mem_map.1 ho
    rfl
  have hshown : ∀ next, nextAccess s.threads e = next → shown s.threads e out =
      (next.map fun next => Obs.performed (κ := κ) next.1 next.2.1 next.2.2).toList ++
        out.map fun o => .returned o.1 o.2 := fun next hnext => by rw [shown, hnext]
  generalize hnext : nextAccess s.threads e = next at hmoves
  rw [hshown next hnext]
  cases hmoves with
  | shared hpc hstats =>
    refine h.quiet hreturned hnothing rfl (fun place c => ?_) ?_ fun c => ?_
    · rcases hstats with hstats | hstats | hstats <;> rw [hstats] <;> cases place <;> cases c <;> rfl
    · rw [hpc]
      exact h.suffix
    · rw [hpc]
  | @begins _ t pc hbefore hnone hafter hpc hstats =>
    refine h.quiet hreturned hnothing rfl (fun place c => by rw [hstats]) ?_ fun c => ?_
    · rw [hpc]
      refine h.suffix_update t fun remaining returns heq => ?_
      rw [heq] at hafter
      obtain rfl : remaining = returns.accesses := hafter
      exact List.suffix_rfl
    · obtain ⟨others, hsum, hupdate⟩ := exists_sum_update (owed c) s.threads.pc t
      rw [hpc, hupdate, hsum, owed_of_whole hbefore, owed_of_whole hafter]
  | performs hbefore hpc hstats => exact h.performs hbefore rfl hstats hpc
  | @returns _ t returns hremaining hbegun hpc hstats =>
    refine h.quiet hreturned hnothing rfl (fun place c => by rw [hstats]) ?_ fun c => ?_
    · rw [hpc]
      exact h.suffix_update t (by simp)
    · obtain ⟨others, hsum, hupdate⟩ := exists_sum_update (owed c) s.threads.pc t
      rw [hpc, hupdate, hsum, owed_of_remaining hremaining]
      rfl

/-! ### Snapshots -/

omit [Fintype ι] in
/-- What a load pins for the snapshots. -/
theorem taken_loaded (place place' : Option Str) (c c' : Counter) (k k' : κ) (tr : List (Obs ι κ)) :
    (ledger place c (tr ++ [.loaded k place' c'])).taken (.inr k') =
      if place' = place ∧ c' = c ∧ k' = k then .now (ledger place c tr).count
      else (ledger place c tr).taken (.inr k') := by
  rw [ledger_append]
  by_cases hplace : place' = place ∧ c' = c
  · have hmarks : marks place c [Obs.loaded (ι := ι) k place' c'] = [.read (.inr k)] := by
      simp [marks, marksOf, hplace]
    rw [hmarks]
    by_cases hk : k' = k
    · rw [if_pos ⟨hplace.1, hplace.2, hk⟩, hk]
      exact Ledger.taken_read_self _ _
    · rw [if_neg fun hall => hk hall.2.2]
      exact Ledger.taken_read_of_ne _ (by simpa using hk)
  · have hmarks : marks place c [Obs.loaded (ι := ι) k place' c'] = [] := by
      simp [marks, marksOf, hplace]
    rw [hmarks, if_neg fun hall => hplace ⟨hall.1, hall.2.1⟩]
    rfl

/-- A snapshot moves on; no thread does. -/
theorem Tracks.goto {s : State ι κ} {tr out : List (Obs ι κ)} (h : Tracks s tr) (k : κ)
    (reader : Reader) (hperformed : performed out = [])
    (hothers : ∀ k' room c, k' ≠ k → (ledger (some room) c (tr ++ out)).taken (.inr k') =
      (ledger (some room) c tr).taken (.inr k'))
    (hseen : reader ≠ .done → ∀ room c, ((reader.perRoom.lookup room).getD {}).read c =
      .ofNat ((ledger (some room) c (tr ++ out)).taken (.inr k)).value)
    (hfields : ∀ fields stats, reader = .loading fields stats → fields <:+ Field.all) :
    Tracks (s.goto k reader) (tr ++ out) := by
  have hreader : ∀ k', (s.goto k reader).reader k' = if k' = k then reader else s.reader k' :=
    fun k' => Function.update_apply ..
  refine ⟨fun place c => ?_, fun k' room c => ?_, h.suffix, fun c => ?_, fun k' => ?_⟩
  · have hcount : (ledger place c (tr ++ out)).count = (ledger place c tr).count := by
      rw [count_ledger, count_ledger, added_append, (added_eq_zero hperformed (countsAt place) c).1]
      rfl
    rw [hcount]
    exact h.values place c
  · rw [hreader]
    split
    · next hk =>
      rw [hk]
      exact fun hdone => hseen hdone room c
    · next hk =>
      rw [hothers k' room c hk]
      exact h.seen k' room c
  · obtain ⟨hadded, hfrom⟩ := added_eq_zero hperformed Option.isSome c
    rw [added_append, fromRooms_append, hadded, hfrom]
    exact h.conserved c
  · rw [hreader]
    split
    · exact hfields
    · exact h.fields k'

/-- A move of a snapshot that loads no traffic counter. -/
theorem Tracks.goto_quiet {s : State ι κ} {tr out : List (Obs ι κ)} (h : Tracks s tr) (k : κ)
    (reader : Reader) (hperformed : performed out = [])
    (hmarks : ∀ room c, marks (some room) c out = [])
    (hkept : reader ≠ .done → s.reader k ≠ .done ∧ reader.perRoom = (s.reader k).perRoom)
    (hfields : ∀ fields stats, reader = .loading fields stats → fields <:+ Field.all) :
    Tracks (s.goto k reader) (tr ++ out) := by
  have hledger : ∀ room c, ledger (some room) c (tr ++ out) = ledger (some room) c tr := by
    intro room c
    rw [ledger_append, hmarks]
    rfl
  refine h.goto k reader hperformed (fun k' room c _ => by rw [hledger]) ?_ hfields
  intro hdone room c
  obtain ⟨hbefore, hkept⟩ := hkept hdone
  rw [hledger, hkept]
  exact h.seen k room c hbefore

omit [DecidableEq ι] [DecidableEq κ] [Fintype ι] in
/-- Loading a room's counter changes what was seen of this counter. -/
theorem read_loadRoom (recorder : StatsRecorder) (perRoom : Map Str RoomCounters)
    (room room' : Str) (c c' : Counter) :
    (((loadRoom recorder perRoom room c).lookup room').getD {}).read c' =
      if room = room' ∧ c = c' then valueAt recorder (some room) c
      else ((perRoom.lookup room').getD {}).read c' := by
  by_cases hroom : room = room'
  · rw [← hroom, loadRoom, AList.lookup_insert, Option.getD_some, RoomCounters.read_store]
    simp only [true_and]
    rfl
  · rw [if_neg fun hboth => hroom hboth.1, loadRoom, AList.lookup_insert_ne (Ne.symm hroom)]

omit [DecidableEq ι] [DecidableEq κ] [Fintype ι] in
/-- Loading a field leaves the rooms alone. -/
theorem perRoom_load (field : Field) (recorder : StatsRecorder) (stats : Stats) :
    (field.load recorder stats).perRoom = stats.perRoom := by
  cases field with
  | counter c => cases c <;> rfl
  | _ => rfl

/-- Every step of a snapshot keeps the accounts. -/
theorem Tracks.advance {shards : ℕ} {shardOf : Str → ℕ} {s s' : State ι κ} {k : κ}
    {tr out : List (Obs ι κ)} (h : Tracks s tr)
    (hstep : advance shards shardOf s k = some (s', out)) : Tracks s' (tr ++ out) := by
  rw [Snapshots.advance] at hstep
  split at hstep
  · cases hstep
  · next shard perRoom hreader =>
    split at hstep <;> cases hstep
    · exact h.goto_quiet k _ rfl (fun _ _ => rfl) (fun _ => by simp [hreader, Reader.perRoom]) (by simp)
    · refine h.goto_quiet k _ rfl (fun _ _ => rfl) (fun _ => ?_) fun fields stats heq => ?_
      · simp [hreader, Reader.perRoom, statsOf]
      · cases heq
        exact List.suffix_rfl
  · next shard perRoom hreader =>
    cases hstep
    exact h.goto_quiet k _ rfl (fun _ _ => rfl) (fun _ => by simp [hreader, Reader.perRoom]) (by simp)
  · next shard room c loads perRoom hreader =>
    cases hstep
    refine h.goto k _ rfl (fun k' room' c' hk => ?_) (fun _ room' c' => ?_) (by simp)
    · rw [taken_loaded, if_neg fun hall => hk hall.2.2]
    · have hbefore := h.seen k room' c' (by simp [hreader])
      rw [hreader] at hbefore
      rw [Reader.perRoom, read_loadRoom, taken_loaded]
      by_cases hload : room = room' ∧ c = c'
      · obtain ⟨rfl, rfl⟩ := hload
        simp only [and_self, if_true]
        exact h.values (some room) c
      · rw [if_neg hload, if_neg fun hall => hload ⟨by simpa using hall.1, hall.2.1⟩]
        exact hbefore
  · next field fields stats hreader =>
    cases hstep
    refine h.goto_quiet k _ ?_ (fun room c => ?_) (fun _ => ?_) fun fields' stats' heq => ?_
    · cases field <;> rfl
    · cases field <;> simp [marks, marksOf]
    · simp [hreader, Reader.perRoom, perRoom_load]
    · cases heq
      exact (List.suffix_cons field fields).trans (h.fields k _ _ hreader)
  · next stats hreader =>
    cases hstep
    exact h.goto_quiet k _ rfl (fun _ _ => rfl) (fun hdone => (hdone rfl).elim) (by simp)
  · cases hstep

/-- Nothing has happened yet. -/
theorem tracks_start : Tracks (start : State ι κ) [] where
  values place c := by cases place <;> cases c <;> rfl
  seen k room c _ := by cases c <;> rfl
  suffix t remaining returns h := by cases h
  conserved c := by
    have hnone : ∑ t, owed c ((start : State ι κ).threads.pc t) = 0 :=
      Finset.sum_eq_zero fun _ _ => rfl
    rw [hnone]
    rfl
  fields k fields stats h := by cases h

/-- Every step keeps the accounts. -/
theorem Tracks.step [ChannelApi Frame] {overflowChecks : Bool} {shards : ℕ} {shardOf : Str → ℕ}
    {s s' : State ι κ} {e : Event ι κ} {tr out : List (Obs ι κ)} (h : Tracks s tr)
    (hstep : step overflowChecks shards shardOf s e = some (s', out)) : Tracks s' (tr ++ out) := by
  cases e with
  | thread e =>
    obtain ⟨⟨threads, out⟩, hthread, heq⟩ := Option.map_eq_some_iff.1 hstep
    cases heq
    exact h.thread hthread
  | snapshot k =>
    rw [Snapshots.step] at hstep
    split at hstep
    · next hreader =>
      cases hstep
      exact h.goto_quiet k _ rfl (fun _ _ => rfl) (fun _ => by simp [hreader, Reader.perRoom]) (by simp)
    · cases hstep
  | read k => exact h.advance hstep

/-! ### Rooms and global counters -/

/-- The rooms' counters of a snapshot add up to no more than the global one. -/
def Includes (stats : Stats) (c : Counter) : Prop :=
  ((Map.values stats.perRoom).map fun counters => (counters.read c).toNat).sum ≤ (stats.read c).toNat

instance (stats : Stats) (c : Counter) : Decidable (Includes stats c) := Nat.decLe _ _

/-- What was added to the global counters, and what was added to the rooms in all, stays below
`2 ^ 64`. -/
def Fits (tr : List (Obs ι κ)) : Prop :=
  ∀ c, added Option.isNone c tr < 2 ^ 64 ∧ added Option.isSome c tr < 2 ^ 64

instance (tr : List (Obs ι κ)) : Decidable (Fits tr) :=
  decidable_of_iff
    (∀ c ∈ Counter.all, added Option.isNone c tr < 2 ^ 64 ∧ added Option.isSome c tr < 2 ^ 64)
    ⟨fun h c => h c (by cases c <;> decide), fun h c _ => h c⟩

omit [DecidableEq ι] [DecidableEq κ] [Fintype ι] in
/-- One room has gained no more than all of them. -/
theorem added_room_le (room : Str) (c : Counter) (tr : List (Obs ι κ)) :
    added (countsAt (some room)) c tr ≤ added Option.isSome c tr := by
  rw [← sum_added_rooms c tr (Finset.subset_insert room _)]
  exact Finset.single_le_sum (f := fun room => added (countsAt (some room)) c tr)
    (fun _ _ => Nat.zero_le _) (Finset.mem_insert_self room _)

omit [DecidableEq ι] [DecidableEq κ] [Fintype ι] in
/-- A room that was not touched has gained nothing. -/
theorem added_of_notMem_touched {room : Str} {tr : List (Obs ι κ)} (h : room ∉ touched tr)
    (c : Counter) : added (countsAt (some room)) c tr = 0 := by
  have hall := sum_added_rooms c tr (Finset.subset_insert room _)
  rw [Finset.sum_insert h, sum_added_rooms c tr (Finset.Subset.refl _)] at hall
  omega

/-- What a snapshot has loaded of a room's counter. -/
theorem Tracks.toNat_seen {s : State ι κ} {tr : List (Obs ι κ)} (h : Tracks s tr) (hfits : Fits tr)
    {k : κ} (hdone : s.reader k ≠ .done) (room : Str) (c : Counter) :
    ((((s.reader k).perRoom.lookup room).getD {}).read c).toNat =
      ((ledger (some room) c tr).taken (.inr k)).value := by
  have hreaches := (coherent_ledger (some room) c tr).taken (.inr k)
  rw [Pin.Reaches, count_ledger] at hreaches
  have hle := added_room_le room c tr
  have hlt := (hfits c).2
  rw [h.seen k room c hdone, UInt64.toNat_ofNat', Nat.mod_eq_of_lt (by omega)]

/-- What a snapshot has loaded of the rooms, and what came late, is what was added. -/
theorem Tracks.sum_seen {s : State ι κ} {tr : List (Obs ι κ)} (h : Tracks s tr) (hfits : Fits tr)
    {k : κ} (hdone : s.reader k ≠ .done) (c : Counter) :
    ((Map.values (s.reader k).perRoom).map fun counters => (counters.read c).toNat).sum +
      late k c tr = added Option.isSome c tr := by
  have hseen := h.toNat_seen hfits hdone
  have hreaches : ∀ room, ((ledger (some room) c tr).taken (.inr k)).value +
      ((ledger (some room) c tr).taken (.inr k)).since = added (countsAt (some room)) c tr :=
    fun room => ((coherent_ledger (some room) c tr).taken (.inr k)).trans (count_ledger _ c tr)
  rw [Map.sum_values_eq _ {}, late]
  simp only [hseen]
  -- outside the keys nothing was loaded, and outside the touched rooms nothing was added
  have hkeys : ∑ room ∈ (s.reader k).perRoom.keys.toFinset,
        ((ledger (some room) c tr).taken (.inr k)).value =
      ∑ room ∈ (s.reader k).perRoom.keys.toFinset ∪ touched tr,
        ((ledger (some room) c tr).taken (.inr k)).value := by
    refine Finset.sum_subset Finset.subset_union_left fun room _ hroom => ?_
    have hnone : (s.reader k).perRoom.lookup room = none :=
      AList.lookup_eq_none.2 fun hmem => hroom (List.mem_toFinset.2 (AList.mem_keys.1 hmem))
    rw [← hseen, hnone]
    exact StatsThreads.read_default c
  have htouched : ∑ room ∈ touched tr, ((ledger (some room) c tr).taken (.inr k)).since =
      ∑ room ∈ (s.reader k).perRoom.keys.toFinset ∪ touched tr,
        ((ledger (some room) c tr).taken (.inr k)).since := by
    refine Finset.sum_subset Finset.subset_union_right fun room _ hroom => ?_
    have hroom := hreaches room
    rw [added_of_notMem_touched ‹_› c] at hroom
    omega
  rw [hkeys, htouched, ← Finset.sum_add_distrib, ← sum_added_rooms c tr Finset.subset_union_right]
  exact Finset.sum_congr rfl fun room _ => hreaches room

/-- When a snapshot loads a global counter, recordings in progress owe it no more than global-only
calls have added to it and the rooms have gained since the snapshot loaded them. -/
def Covered (s : State ι κ) (tr : List (Obs ι κ)) (k : κ) (c : Counter) : Prop :=
  ∑ t, owed c (s.threads.pc t) ≤ globalOnly c tr + late k c tr

instance (s : State ι κ) (tr : List (Obs ι κ)) (k : κ) (c : Counter) : Decidable (Covered s tr k c) :=
  Nat.decLe _ _

/-- The rooms' counters add up to no more than the global value just when this is so. -/
theorem Tracks.includes_iff {s : State ι κ} {tr : List (Obs ι κ)} (h : Tracks s tr)
    (hfits : Fits tr) {k : κ} {c : Counter} {stats : Stats} (hdone : s.reader k ≠ .done)
    (hrooms : stats.perRoom = (s.reader k).perRoom)
    (hglobal : stats.read c = valueAt s.threads.stats none c) :
    Includes stats c ↔ Covered s tr k c := by
  have hsum := h.sum_seen hfits hdone c
  have hconserved := h.conserved c
  have hvalue : (stats.read c).toNat = globalOnly c tr + fromRooms c tr := by
    rw [hglobal, h.values none c, count_ledger, ← added_isNone, UInt64.toNat_ofNat']
    exact Nat.mod_eq_of_lt (hfits c).1
  rw [Includes, Covered, hrooms, hvalue]
  omega

/-- Of the counters that a snapshot has loaded globally, the rooms' ones add up to no more. -/
def Reader.Right : Reader → Prop
  | .loading fields stats => ∀ c, .counter c ∉ fields → Includes stats c
  | _ => True

/-- So it is of every snapshot, returned or in progress. -/
def Sound (s : State ι κ) (tr : List (Obs ι κ)) : Prop :=
  (∀ k stats, .snapshot k stats ∈ tr → ∀ c, Includes stats c) ∧ ∀ k, (s.reader k).Right

/-- What a snapshot's next step needs to be covered. -/
def CoveredAt (s : State ι κ) (tr : List (Obs ι κ)) (k : κ) : Reader → Prop
  | .loading (.counter c :: _) _ => Covered s tr k c
  | _ => True

instance (s : State ι κ) (tr : List (Obs ι κ)) (k : κ) : DecidablePred (CoveredAt s tr k)
  | .loading (.counter c :: _) _ => inferInstanceAs (Decidable (Covered s tr k c))
  | .loading (.connections :: _) _ => isTrue trivial
  | .loading (.rooms :: _) _ => isTrue trivial
  | .loading [] _ => isTrue trivial
  | .idle => isTrue trivial
  | .entering _ _ => isTrue trivial
  | .visiting _ _ _ => isTrue trivial
  | .done => isTrue trivial

/-- Every load of a global counter is covered. -/
def LoadsCovered (s : State ι κ) (tr : List (Obs ι κ)) : Event ι κ → Prop
  | .read k => CoveredAt s tr k (s.reader k)
  | _ => True

instance (s : State ι κ) (tr : List (Obs ι κ)) : DecidablePred (LoadsCovered s tr)
  | .read k => inferInstanceAs (Decidable (CoveredAt s tr k (s.reader k)))
  | .thread _ => isTrue trivial
  | .snapshot _ => isTrue trivial

omit [DecidableEq ι] [Fintype ι] in
/-- Only the snapshot that moves has to be looked at. -/
theorem sound_goto_iff {s : State ι κ} {tr out : List (Obs ι κ)} {k : κ} {reader : Reader} {G : Prop}
    (hlocal : (∀ k' stats, .snapshot k' stats ∈ out → ∀ c, Includes stats c) ∧ reader.Right ↔
      (s.reader k).Right ∧ G) :
    Sound (s.goto k reader) (tr ++ out) ↔ Sound s tr ∧ G := by
  have hmoved : (s.goto k reader).reader k = reader := Function.update_self ..
  have hothers : ∀ k', k' ≠ k → (s.goto k reader).reader k' = s.reader k' :=
    fun k' hk => Function.update_of_ne hk ..
  constructor
  · rintro ⟨hpast, hreaders⟩
    have hnow := hreaders k
    rw [hmoved] at hnow
    obtain ⟨hbefore, hG⟩ := hlocal.1
      ⟨fun k' stats hmem => hpast k' stats (List.mem_append_right tr hmem), hnow⟩
    refine ⟨⟨fun k' stats hmem => hpast k' stats (List.mem_append_left out hmem), fun k' => ?_⟩, hG⟩
    by_cases hk : k' = k
    · rw [hk]
      exact hbefore
    · rw [← hothers k' hk]
      exact hreaders k'
  · rintro ⟨⟨hpast, hreaders⟩, hG⟩
    obtain ⟨hout, hnow⟩ := hlocal.2 ⟨hreaders k, hG⟩
    refine ⟨fun k' stats hmem => ?_, fun k' => ?_⟩
    · exact (List.mem_append.1 hmem).elim (hpast k' stats) (hout k' stats)
    · by_cases hk : k' = k
      · rw [hk, hmoved]
        exact hnow
      · rw [hothers k' hk]
        exact hreaders k'

omit [DecidableEq ι] [DecidableEq κ] [Fintype ι] in
/-- A load of a field leaves the other counters alone. -/
theorem read_load_of_ne {field : Field} {c : Counter} (h : field ≠ .counter c)
    (recorder : StatsRecorder) (stats : Stats) :
    (field.load recorder stats).read c = stats.read c := by
  cases field with
  | counter c' => cases c' <;> cases c <;> first | rfl | exact (h rfl).elim
  | _ => cases c <;> rfl

omit [DecidableEq ι] [DecidableEq κ] [Fintype ι] in
theorem read_load_self (c : Counter) (recorder : StatsRecorder) (stats : Stats) :
    ((Field.counter c).load recorder stats).read c = valueAt recorder none c := by
  cases c <;> rfl

omit [DecidableEq ι] [DecidableEq κ] [Fintype ι] in
theorem includes_load_iff {field : Field} {c : Counter} (h : field ≠ .counter c)
    (recorder : StatsRecorder) (stats : Stats) :
    Includes (field.load recorder stats) c ↔ Includes stats c := by
  rw [Includes, Includes, perRoom_load, read_load_of_ne h]

/-- A load of a field decides its own counter only. -/
theorem right_load_iff {s : State ι κ} {tr : List (Obs ι κ)} (h : Tracks s tr) (hfits : Fits tr)
    {k : κ} {field : Field} {fields : List Field} {stats : Stats}
    (hreader : s.reader k = .loading (field :: fields) stats) :
    (Reader.loading fields (field.load s.threads.stats stats)).Right ↔
      (Reader.loading (field :: fields) stats).Right ∧
        CoveredAt s tr k (.loading (field :: fields) stats) := by
  have hnotMem : field ∉ fields := by
    have hnodup : (field :: fields).Nodup :=
      List.Nodup.sublist (h.fields k _ _ hreader).sublist (by decide)
    exact (List.nodup_cons.1 hnodup).1
  have hrest : ∀ c, field ≠ .counter c → (.counter c ∉ field :: fields ↔ .counter c ∉ fields) := by
    intro c hne
    rw [List.mem_cons, not_or, and_iff_right hne.symm]
  have hload := fun c (hne : field ≠ .counter c) => includes_load_iff hne s.threads.stats stats
  cases field with
  | counter c =>
    have hself : Includes ((Field.counter c).load s.threads.stats stats) c ↔ Covered s tr k c := by
      refine h.includes_iff hfits (by simp [hreader]) ?_ (read_load_self c _ stats)
      rw [perRoom_load, hreader]
      rfl
    constructor
    · intro hright
      refine ⟨fun c' hc' => ?_, hself.1 (hright c hnotMem)⟩
      have hne : Field.counter c ≠ .counter c' := fun heq => hc' (heq ▸ List.mem_cons_self)
      exact (hload c' hne).1 (hright c' ((hrest c' hne).1 hc'))
    · rintro ⟨hright, hcovered⟩ c' hc'
      by_cases hne : Field.counter c = .counter c'
      · cases hne
        exact hself.2 hcovered
      · exact (hload c' hne).2 (hright c' ((hrest c' hne).2 hc'))
  | connections | rooms =>
    refine Iff.trans ?_ (and_true _).to_iff.symm
    refine forall_congr' fun c => ?_
    rw [hrest c (by simp), hload c (by simp)]

/-- Every step keeps all snapshots right just when it is covered. -/
theorem sound_step_iff [ChannelApi Frame] {overflowChecks : Bool} {shards : ℕ} {shardOf : Str → ℕ}
    {s s' : State ι κ} {e : Event ι κ} {tr out : List (Obs ι κ)} (h : Tracks s tr) (hfits : Fits tr)
    (hstep : step overflowChecks shards shardOf s e = some (s', out)) :
    Sound s' (tr ++ out) ↔ Sound s tr ∧ LoadsCovered s tr e := by
  cases e with
  | thread e =>
    obtain ⟨⟨threads, out⟩, hthread, heq⟩ := Option.map_eq_some_iff.1 hstep
    cases heq
    have hout : ∀ k stats, Obs.snapshot k stats ∉ (shown s.threads e out : List (Obs ι κ)) := by
      intro k stats
      simp [shown]
    refine Iff.trans ?_ (and_true _).to_iff.symm
    refine and_congr (forall_congr' fun k => forall_congr' fun stats => ?_) Iff.rfl
    rw [List.mem_append, or_iff_left (hout k stats)]
  | snapshot k =>
    rw [Snapshots.step] at hstep
    split at hstep
    · next hreader =>
      cases hstep
      apply sound_goto_iff
      simp [hreader, Reader.Right, LoadsCovered]
    · cases hstep
  | read k =>
    change advance shards shardOf s k = some (s', out) at hstep
    rw [advance] at hstep
    rw [LoadsCovered]
    split at hstep
    · cases hstep
    · next shard perRoom hreader =>
      split at hstep <;> cases hstep <;> apply sound_goto_iff <;> rw [hreader]
      · simp [Reader.Right, CoveredAt]
      · have hall : ∀ c, Field.counter c ∈ Field.all := fun c => by cases c <;> decide
        simp [Reader.Right, CoveredAt, hall]
    · next shard perRoom hreader =>
      cases hstep
      apply sound_goto_iff
      rw [hreader]
      simp [Reader.Right, CoveredAt]
    · next shard room c loads perRoom hreader =>
      cases hstep
      apply sound_goto_iff
      rw [hreader]
      simp [Reader.Right, CoveredAt]
    · next field fields stats hreader =>
      cases hstep
      apply sound_goto_iff
      rw [hreader, ← right_load_iff h hfits hreader]
      cases field <;> simp
    · next stats hreader =>
      cases hstep
      apply sound_goto_iff
      rw [hreader]
      simp [Reader.Right, CoveredAt]
    · cases hstep

omit [DecidableEq ι] [DecidableEq κ] [Fintype ι] in
/-- What fits has fitted before. -/
theorem Fits.of_append {tr out : List (Obs ι κ)} (h : Fits (tr ++ out)) : Fits tr := by
  intro c
  have hboth := h c
  rw [added_append, added_append] at hboth
  omega

/-- In every run with totals below `2 ^ 64`, the room counters of every snapshot add up to no more
than the global ones if, at each load of a global counter by a snapshot, recordings in progress owe
it no more than global-only calls have added to it and the rooms have gained since the snapshot
loaded them. Once every snapshot has returned, they do so only then. -/
theorem perRoom_le_global_iff [ChannelApi Frame] (overflowChecks : Bool) (shards : ℕ)
    (shardOf : Str → ℕ) {es : List (Event ι κ)} {s : State ι κ} {tr : List (Obs ι κ)}
    (hrun : (machine ι κ overflowChecks shards shardOf).run es (start, []) = some (s, tr))
    (hfits : Fits tr) :
    ((machine ι κ overflowChecks shards shardOf).Meets LoadsCovered es (start, []) →
      ∀ k stats, .snapshot k stats ∈ tr → ∀ c, Includes stats c) ∧
    ((∀ k, s.reader k = .idle ∨ s.reader k = .done) →
      ((∀ k stats, .snapshot k stats ∈ tr → ∀ c, Includes stats c) ↔
        (machine ι κ overflowChecks shards shardOf).Meets LoadsCovered es (start, []))) := by
  have hstart : Sound (start : State ι κ) [] :=
    ⟨fun _ _ hmem => (List.not_mem_nil hmem).elim, fun _ => trivial⟩
  obtain ⟨-, hiff⟩ := Machine.meets_iff_of_step (Q := Sound) (F := Fits)
    (fun s tr e s' out h he => ⟨Tracks.step h he, fun hfits =>
      ⟨hfits.of_append, sound_step_iff h hfits.of_append he⟩⟩) hrun tracks_start hfits
  rw [and_iff_right hstart] at hiff
  refine ⟨fun hmeets => (hiff.2 hmeets).1, fun hreaders => ?_⟩
  rw [← hiff]
  refine ⟨fun hall => ⟨hall, fun k => ?_⟩, And.left⟩
  obtain hreader | hreader := hreaders k <;> rw [hreader] <;> trivial

/-- A message of two bytes comes in at the lobby; the snapshot comes after its recording, or
`within` it, before the global part. -/
def lobbySnapshot (within : Bool) : List (Event (Fin 1) (Fin 1)) :=
  .thread (.call 0 (.recordRoomMessageIn ['l'] 2)) ::
    (List.replicate 3 (.thread (.advance 0)) ++
      if within then .snapshot 0 :: (List.replicate 16 (.read 0) ++
        List.replicate 3 (.thread (.advance 0)))
      else List.replicate 3 (.thread (.advance 0)) ++ .snapshot 0 :: List.replicate 16 (.read 0))

/-- After the recording, the snapshot's globals include the lobby's traffic. -/
theorem perRoom_le_global_iff_lobby : ∃ s tr stats,
    (machine (Fin 1) (Fin 1) true 1 fun _ => 0).run (lobbySnapshot false) (start, []) = some (s, tr) ∧
      .snapshot 0 stats ∈ tr ∧ ∀ c, Includes stats c := by
  have hseen : ((machine (Fin 1) (Fin 1) true 1 fun _ => 0).run (lobbySnapshot false)
      (start, [])).map (fun c => (decide (Fits c.2), c.2.any fun | .snapshot _ _ => true | _ => false)) =
      some (true, true) := by decide
  obtain ⟨⟨s, tr⟩, hrun, heq⟩ := Option.map_eq_some_iff.1 hseen
  obtain ⟨hfits, hany⟩ := Prod.mk.inj heq
  obtain ⟨o, hmem, ho⟩ := List.any_eq_true.1 hany
  cases o with
  | snapshot k stats =>
    obtain rfl : k = 0 := Subsingleton.elim k 0
    exact ⟨s, tr, stats, hrun, hmem, (perRoom_le_global_iff true 1 (fun _ => 0) hrun
      (of_decide_eq_true hfits)).1 (by decide) 0 stats hmem⟩
  | _ => cases ho

/-- Within the recording, the snapshot shows one message at the lobby and none globally. -/
theorem withinRecording_exceeds : ∃ s tr stats,
    (machine (Fin 1) (Fin 1) true 1 fun _ => 0).run (lobbySnapshot true) (start, []) = some (s, tr) ∧
      Fits tr ∧ .snapshot 0 stats ∈ tr ∧ ¬ Includes stats .messagesIn := by
  have hseen : ((machine (Fin 1) (Fin 1) true 1 fun _ => 0).run (lobbySnapshot true)
      (start, [])).map (fun c => (decide (Fits c.2), c.2.any fun
        | .snapshot _ stats => decide (¬ Includes stats .messagesIn)
        | _ => false)) = some (true, true) := by decide
  obtain ⟨⟨s, tr⟩, hrun, heq⟩ := Option.map_eq_some_iff.1 hseen
  obtain ⟨hfits, hany⟩ := Prod.mk.inj heq
  obtain ⟨o, hmem, ho⟩ := List.any_eq_true.1 hany
  cases o with
  | snapshot k stats =>
    obtain rfl : k = 0 := Subsingleton.elim k 0
    exact ⟨s, tr, stats, hrun, of_decide_eq_true hfits, hmem, of_decide_eq_true ho⟩
  | _ => cases ho

end WsKit.Snapshots
