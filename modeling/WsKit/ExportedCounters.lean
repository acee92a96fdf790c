import WsKit.Base.Threads
import WsKit.StatsThreads

/-!
# Traffic counters in a metrics facade

With the metrics feature every recording call also increments the facade's counters, after it has
added to the recorder's own. The facade's counters wrap as these do. So an exporter that reads them
never sees more than the recorder has, and sees the same whenever no call is in progress.
-/

namespace WsKit.ExportedCounters

open Base StatsThreads

/-- What a call increments in the facade, in order. -/
def increments : Call → List (Counter × UInt64)
  | .recordMessageIn bytes => [(.messagesIn, 1), (.bytesIn, bytes)]
  | .recordMessageOut count bytes => [(.messagesOut, count), (.bytesOut, bytes)]
  | .recordDrop => [(.drops, 1)]
  | .recordRoomMessageIn _ bytes => [(.messagesIn, 1), (.bytesIn, bytes)]
  | .recordRoomMessageOut _ count bytes => [(.messagesOut, count), (.bytesOut, bytes)]
  | .recordRoomDrop _ => [(.drops, 1)]

/-- An access to the recorder, or an increment in the facade. -/
inductive Act where
  | access (a : Access)
  | increment (c : Counter) (n : UInt64)
  deriving DecidableEq

/-- The acts of a call; without the metrics feature nothing is exported. -/
def acts (metrics : Bool) (call : Call) : List Act :=
  call.accesses.map .access ++
    if metrics then (increments call).map fun i => .increment i.1 i.2 else []

/-- The recorder, the facade's counters, and what each thread has left of its call. A counter of the
facade is taken to hold the sum of the increments sent to it, modulo `2 ^ 64`. -/
structure State (ι : Type*) where
  stats : StatsRecorder
  exported : Counter → UInt64
  pc : ι → List Act

/-- A thread starts a call, or takes its next act. -/
inductive Event (ι : Type*) where
  | call (t : ι) (call : Call)
  | advance (t : ι)

variable {ι : Type*}

/-- A recorder and a facade with all counters at zero. -/
def start : State ι := ⟨.new, fun _ => 0, fun _ => []⟩

/-- The effect of an act. -/
def Act.perform (s : State ι) : Act → State ι
  | .access a => { s with stats := a.perform s.stats }
  | .increment c n => { s with exported := Function.update s.exported c (s.exported c + n) }

variable [DecidableEq ι]

/-- Take an event; what is seen are the calls that begin. -/
def step (metrics : Bool) (s : State ι) : Event ι → Option (State ι × List Call)
  | .call t call =>
    match s.pc t with
    | [] => some ({ s with pc := Function.update s.pc t (acts metrics call) }, [call])
    | _ :: _ => none
  | .advance t =>
    match s.pc t with
    | [] => none
    | act :: rest => some ({ act.perform s with pc := Function.update s.pc t rest }, [])

/-- Threads that record, with or without the metrics feature. -/
def machine (ι : Type*) [DecidableEq ι] (metrics : Bool) : Machine (State ι) (Event ι) Call :=
  ⟨step metrics⟩

omit [DecidableEq ι]

/-- The acts of a call, one after another, run the method that it calls. -/
theorem foldl_perform_acts (metrics : Bool) (s : State ι) (call : Call) :
    ((acts metrics call).foldl Act.perform s).stats = call.apply s.stats := by
  have haccesses : ∀ (accesses : List Access) (s : State ι),
      ((accesses.map Act.access).foldl Act.perform s).stats =
        accesses.foldl Access.perform s.stats := by
    intro accesses
    induction accesses with
    | nil => exact fun _ => rfl
    | cons a accesses ih => exact fun s => ih _
  have hincrements : ∀ (exports : List (Counter × UInt64)) (s : State ι),
      ((exports.map fun i => Act.increment i.1 i.2).foldl Act.perform s).stats = s.stats := by
    intro exports
    induction exports with
    | nil => exact fun _ => rfl
    | cons i exports ih => exact fun s => ih _
  rw [acts, List.foldl_append]
  cases metrics with
  | true =>
    rw [if_pos rfl, hincrements, haccesses, foldl_perform_accesses]
  | false =>
    rw [if_neg Bool.false_ne_true, List.foldl_nil, haccesses, foldl_perform_accesses]

/-! ### What acts add -/

/-- What an act adds to the recorder's global counter. -/
def Act.added (c : Counter) : Act → ℕ
  | .access (.add none c' n) => if c' = c then n.toNat else 0
  | _ => 0

/-- What an act adds to the facade's counter. -/
def Act.sent (c : Counter) : Act → ℕ
  | .increment c' n => if c' = c then n.toNat else 0
  | _ => 0

/-- What is left to add to the recorder. -/
def toAdd (c : Counter) (left : List Act) : ℕ := (left.map (Act.added c)).sum

/-- What is left to export. -/
def toSend (c : Counter) (left : List Act) : ℕ := (left.map (Act.sent c)).sum

/-- What calls add to a global counter. -/
def amount (c : Counter) (calls : List Call) : ℕ :=
  (calls.map fun call => toAdd c (acts true call)).sum

/-- A call exports what it adds to the global counters. -/
theorem toSend_acts (c : Counter) (call : Call) :
    toSend c (acts true call) = toAdd c (acts true call) := by
  cases call <;> cases c <;>
    simp [toSend, toAdd, acts, Call.accesses, increments, Act.sent, Act.added]

/-- A thread has additions left before exports, and no more left to add than to export. -/
def InOrder (c : Counter) (left : List Act) : Prop :=
  ∃ (additions : List Access) (exports : List (Counter × UInt64)),
    left = additions.map .access ++ exports.map (fun i => .increment i.1 i.2) ∧
      toAdd c left ≤ toSend c left

/-- Exports add nothing to the recorder. -/
theorem toAdd_exports (c : Counter) (exports : List (Counter × UInt64)) :
    toAdd c (exports.map fun i => .increment i.1 i.2) = 0 := by
  rw [toAdd, List.map_map]
  exact List.sum_eq_zero fun n hn => by
    obtain ⟨i, -, rfl⟩ := List.mem_map.1 hn
    rfl

/-- A call begins in order. -/
theorem inOrder_acts (c : Counter) (call : Call) : InOrder c (acts true call) :=
  ⟨call.accesses, increments call, rfl, (toSend_acts c call).ge⟩

/-- And goes on in order: what is added first can only leave less to add. -/
theorem InOrder.tail {c : Counter} {act : Act} {rest : List Act} (h : InOrder c (act :: rest)) :
    InOrder c rest := by
  obtain ⟨additions, exports, heq, hle⟩ := h
  cases additions with
  | nil =>
    cases exports with
    | nil => cases heq
    | cons i exports =>
      obtain ⟨-, rfl⟩ := List.cons.inj heq
      refine ⟨[], exports, rfl, ?_⟩
      rw [toAdd_exports]
      exact Nat.zero_le _
  | cons a additions =>
    obtain ⟨rfl, rfl⟩ := List.cons.inj heq
    refine ⟨additions, exports, rfl, ?_⟩
    rw [toAdd, toSend, List.map_cons, List.map_cons, List.sum_cons, List.sum_cons] at hle
    exact (Nat.le_add_left _ _).trans (hle.trans_eq (Nat.zero_add _))

/-- An access adds to the recorder's global counter. -/
theorem read_perform (stats : StatsRecorder) (a : Access) (c : Counter) :
    (a.perform stats).snapshot.read c =
      stats.snapshot.read c + .ofNat (Act.added c (.access a)) := by
  cases a with
  | entry room => cases c <;> simp [Access.perform, Act.added, StatsRecorder.updateRoom,
      StatsRecorder.snapshot, Stats.read]
  | add place c' n =>
    cases place with
    | some room => cases c <;> simp [Access.perform, Act.added, StatsRecorder.updateRoom,
        StatsRecorder.snapshot, Stats.read]
    | none => cases c <;> cases c' <;> simp [Access.perform, Act.added, Globals.fetchAdd,
        StatsRecorder.snapshot, Stats.read]

/-! ### Runs -/

section Runs

variable [Fintype ι] [DecidableEq ι]

/-- A counter of the recorder and its copy in the facade are what the calls began to add, less what
the threads still have to add and to export. -/
structure Accounted (c : Counter) (s : State ι) (calls : List Call) (added sent : ℕ) : Prop where
  read : s.stats.snapshot.read c = .ofNat added
  exported : s.exported c = .ofNat sent
  toAdd : added + ∑ t, toAdd c (s.pc t) = amount c calls
  toSend : sent + ∑ t, toSend c (s.pc t) = amount c calls
  inOrder : ∀ t, InOrder c (s.pc t)

omit [DecidableEq ι] in
/-- Nothing is accounted for at the start. -/
theorem accounted_start (c : Counter) : Accounted c (start : State ι) [] 0 0 where
  read := by cases c <;> rfl
  exported := rfl
  toAdd := by
    rw [Nat.zero_add]
    exact Finset.sum_eq_zero fun _ _ => rfl
  toSend := by
    rw [Nat.zero_add]
    exact Finset.sum_eq_zero fun _ _ => rfl
  inOrder _ := ⟨[], [], rfl, Nat.le_refl 0⟩

/-- Every step keeps the account. -/
theorem Accounted.step {c : Counter} {s s' : State ι} {calls out : List Call} {added sent : ℕ}
    (h : Accounted c s calls added sent) {e : Event ι} (hstep : step true s e = some (s', out)) :
    ∃ added' sent', Accounted c s' (calls ++ out) added' sent' := by
  have hinOrder : ∀ (t : ι) (left : List Act), InOrder c left →
      ∀ u, InOrder c (Function.update s.pc t left u) := by
    intro t left hleft u
    rw [Function.update_apply]
    split
    · exact hleft
    · exact h.inOrder u
  have htoAdd := h.toAdd
  have htoSend := h.toSend
  cases e with
  | call t call =>
    rw [ExportedCounters.step] at hstep
    obtain ⟨others, hsum, hupdate⟩ := exists_sum_update (ExportedCounters.toAdd c) s.pc t
    obtain ⟨others', hsum', hupdate'⟩ := exists_sum_update (ExportedCounters.toSend c) s.pc t
    split at hstep
    · next hidle =>
      obtain ⟨rfl, rfl⟩ := Prod.mk.inj (Option.some.inj hstep)
      have hamount : amount c (calls ++ [call]) =
          amount c calls + ExportedCounters.toAdd c (acts true call) := by
        rw [amount, List.map_append, List.sum_append]
        rfl
      rw [hsum, hidle] at htoAdd
      rw [hsum', hidle] at htoSend
      refine ⟨added, sent, h.read, h.exported, ?_, ?_, hinOrder t _ (inOrder_acts c call)⟩
      · rw [hupdate, hamount, ← htoAdd]
        exact (Nat.add_assoc added others _).symm
      · rw [hupdate', hamount, ← htoSend, toSend_acts]
        exact (Nat.add_assoc sent others' _).symm
    · cases hstep
  | advance t =>
    rw [ExportedCounters.step] at hstep
    obtain ⟨others, hsum, hupdate⟩ := exists_sum_update (ExportedCounters.toAdd c) s.pc t
    obtain ⟨others', hsum', hupdate'⟩ := exists_sum_update (ExportedCounters.toSend c) s.pc t
    split at hstep
    · cases hstep
    · next act rest hpc =>
      obtain ⟨rfl, rfl⟩ := Prod.mk.inj (Option.some.inj hstep)
      rw [hsum, hpc, ExportedCounters.toAdd, List.map_cons, List.sum_cons] at htoAdd
      rw [hsum', hpc, ExportedCounters.toSend, List.map_cons, List.sum_cons] at htoSend
      have hrest := hinOrder t rest (hpc ▸ h.inOrder t).tail
      rw [List.append_nil]
      refine ⟨added + act.added c, sent + act.sent c, ?_, ?_, ?_, ?_, hrest⟩
      · cases act with
        | access a =>
          change (a.perform s.stats).snapshot.read c = _
          rw [read_perform, h.read, UInt64.ofNat_add]
        | increment c' n =>
          change s.stats.snapshot.read c = _
          rw [h.read]
          rfl
      · cases act with
        | access a => exact h.exported
        | increment c' n =>
          change Function.update s.exported c' (s.exported c' + n) c = _
          rw [Act.sent]
          by_cases heq : c' = c
          · subst heq
            rw [Function.update_self, if_pos rfl, UInt64.ofNat_add, h.exported, UInt64.ofNat_toNat]
          · rw [Function.update_of_ne (Ne.symm heq), if_neg heq]
            exact h.exported
      · change _ + ∑ u, ExportedCounters.toAdd c (Function.update s.pc t rest u) = _
        rw [hupdate, ← htoAdd, ExportedCounters.toAdd]
        omega
      · change _ + ∑ u, ExportedCounters.toSend c (Function.update s.pc t rest u) = _
        rw [hupdate', ← htoSend, ExportedCounters.toSend]
        omega

/-- With the metrics feature, in every interleaving of recording calls, a facade's counter lags
behind the recorder's by what the calls in progress have added and not yet exported, and by
nothing when none is in progress. As long as the calls have not added `2 ^ 64` in all, it is never
ahead. -/
theorem exported_lags {es : List (Event ι)} {s : State ι} {calls : List Call}
    (hrun : (machine ι true).run es (start, []) = some (s, calls)) (c : Counter) :
    s.stats.snapshot.read c = s.exported c + .ofNat (∑ t, (toSend c (s.pc t) - toAdd c (s.pc t))) ∧
      ((∀ t, s.pc t = []) → s.exported c = s.stats.snapshot.read c ∧
        s.stats.snapshot.read c = .ofNat (amount c calls)) ∧
      (amount c calls < 2 ^ 64 → s.exported c ≤ s.stats.snapshot.read c) := by
  have haccounted : ∃ added sent, Accounted c s calls added sent := by
    refine Machine.run_induct_all (P := fun s calls => ∃ added sent, Accounted c s calls added sent)
      ?_ hrun ⟨0, 0, accounted_start c⟩
    rintro s calls e s' out ⟨added, sent, h⟩ hstep
    exact h.step hstep
  obtain ⟨added, sent, h⟩ := haccounted
  have hpending : ∑ t, (toSend c (s.pc t) - toAdd c (s.pc t)) + ∑ t, toAdd c (s.pc t) =
      ∑ t, toSend c (s.pc t) := by
    rw [← Finset.sum_add_distrib]
    refine Finset.sum_congr rfl fun t _ => Nat.sub_add_cancel ?_
    obtain ⟨additions, exports, -, hle⟩ := h.inOrder t
    exact hle
  have hlag : added = sent + ∑ t, (toSend c (s.pc t) - toAdd c (s.pc t)) := by
    have htoAdd := h.toAdd
    have htoSend := h.toSend
    omega
  refine ⟨?_, fun hidle => ?_, fun hfits => ?_⟩
  · rw [h.read, h.exported, hlag, UInt64.ofNat_add]
  · have hnone : ∀ f : List Act → ℕ, f [] = 0 → ∑ t, f (s.pc t) = 0 := by
      intro f hf
      exact Finset.sum_eq_zero fun t _ => by rw [hidle t, hf]
    have htoAdd := h.toAdd
    have htoSend := h.toSend
    rw [hnone _ rfl, Nat.add_zero] at htoAdd htoSend
    rw [h.read, h.exported, htoAdd, htoSend]
    exact ⟨rfl, rfl⟩
  · have hadded : added ≤ amount c calls := by
      have htoAdd := h.toAdd
      omega
    rw [h.read, h.exported, UInt64.le_iff_toNat_le, UInt64.toNat_ofNat', UInt64.toNat_ofNat',
      Nat.mod_eq_of_lt (by omega), Nat.mod_eq_of_lt (by omega)]
    omega

end Runs

/-- Two threads that record; the second one has not yet exported its drop. -/
def lateExport (t u : ι) : List (Event ι) :=
  [.call t (.recordMessageIn 5), .advance t, .advance t, .call u (.recordRoomDrop ['l']), .advance t,
    .advance t, .advance u, .advance u, .advance u]

/-- The drop is recorded and not yet exported. -/
theorem exported_lags_lateExport : ∃ s calls,
    (machine (Fin 2) true).run (lateExport 0 1) (start, []) = some (s, calls) ∧
      s.exported .bytesIn = 5 ∧ s.exported .drops = 0 ∧ s.stats.snapshot.read .drops = 1 ∧
      s.exported .drops ≤ s.stats.snapshot.read .drops := by
  have hseen : ((machine (Fin 2) true).run (lateExport 0 1) (start, [])).any (fun s =>
      decide (s.1.exported .bytesIn = 5) && decide (s.1.exported .drops = 0) &&
        decide (s.1.stats.snapshot.read .drops = 1) &&
        decide (amount .drops s.2 < 2 ^ 64)) := by decide
  obtain ⟨⟨s, calls⟩, hrun, hfacts⟩ := (Option.any_eq_true _ _).1 hseen
  simp only [Bool.and_eq_true, decide_eq_true_eq] at hfacts
  obtain ⟨⟨⟨hbytes, hexported⟩, hdrops⟩, hfits⟩ := hfacts
  exact ⟨s, calls, hrun, hbytes, hexported, hdrops, (exported_lags hrun .drops).2.2 hfits⟩

end WsKit.ExportedCounters
