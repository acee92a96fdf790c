import WsKit.RoomThreads
import Mathlib.Data.Fintype.Basic

/-!
# Cleanup under concurrent calls

A cleanup checks the rooms while it scans and removes the listed ids afterwards, by id. A
participant or a receiver that arrives in between is thrown out with its room, and an id
that another call removes in between is counted but not taken out. Where nobody touches the
listed rooms in this way, every room taken out is empty and the count is right.
-/

namespace WsKit.RoomThreads

open Base

/-- The ids that a cleanup has listed and not yet removed. -/
def Pc.listed : Pc → List Str
  | .enteringShard .cleanup _ found => found
  | .scanning .cleanup _ _ found => found
  | .deleting .cleanup pending _ _ => pending
  | _ => []

/-- The id that the next access unmaps. -/
def Pc.unmaps : Pc → Option Str
  | .removing roomId => some roomId
  | pc => pc.deletes

variable {ι : Type*}

/-- No call unmaps an id that another thread's cleanup has listed, and nobody joins or subscribes
to the room mapped under a listed id. -/
def SparesListed (s : State ι) : Event ι → Prop
  | .advance t => ∀ roomId ∈ (s.pc t).unmaps, ∀ u, u ≠ t → roomId ∉ (s.pc u).listed
  | .use op => ∀ ref ∈ op.admits, ∀ u, ∀ roomId ∈ (s.pc u).listed, s.manager.get roomId ≠ some ref
  | .call _ _ => True

instance [Fintype ι] [DecidableEq ι] (s : State ι) : ∀ e, Decidable (SparesListed s e)
  | .call _ _ => isTrue trivial
  | .advance t => inferInstanceAs (Decidable (∀ roomId ∈ (s.pc t).unmaps, ∀ u, u ≠ t →
      roomId ∉ (s.pc u).listed))
  | .use op => inferInstanceAs (Decidable (∀ ref ∈ op.admits, ∀ u, ∀ roomId ∈ (s.pc u).listed,
      s.manager.get roomId ≠ some ref))

section AnyChannel

variable [ChannelApi Frame]

/-- The room mapped under an id is empty. -/
def EmptyAt (m : RoomManager) (roomId : Str) : Prop :=
  ∃ ref room, m.get roomId = some ref ∧ m.room ref = some room ∧ room.isEmpty = true

/-- A cleanup lists no id twice, since it goes from shard to shard. -/
def Pc.Ordered (shardOf : Str → ℕ) : Pc → Prop
  | .enteringShard .cleanup shard found => found.Nodup ∧ ∀ roomId ∈ found, shardOf roomId < shard
  | .scanning .cleanup shard todo found => (found ++ todo).Nodup ∧
      (∀ roomId ∈ found, shardOf roomId ≤ shard) ∧ ∀ roomId ∈ todo, shardOf roomId = shard
  | .deleting .cleanup pending _ _ => pending.Nodup
  | _ => True

/-- A cleanup has taken out every id that it listed and no longer has pending. -/
def Pc.TookAll : Pc → Prop
  | .deleting .cleanup pending listed taken => taken + pending.length = listed
  | .closing .cleanup _ listed taken => listed = taken
  | _ => True

/-- What holds while nobody touches the listed rooms. -/
structure Spared (shardOf : Str → ℕ) (s : State ι) (tr : List (Obs ι)) : Prop where
  empty : ∀ t, ∀ roomId ∈ (s.pc t).listed, EmptyAt s.manager roomId
  ordered : ∀ t, (s.pc t).Ordered shardOf
  tookAll : ∀ t, (s.pc t).TookAll
  tookOut : ∀ t roomId occupancy, Obs.tookOut t .cleanup roomId occupancy ∈ tr →
    occupancy = some (0, 0)
  swept : ∀ t n taken, Obs.swept t .cleanup n taken ∈ tr → n = taken

/-- An id whose mapping and room stay as they are stays empty. -/
theorem EmptyAt.congr {m m' : RoomManager} {roomId : Str} (h : EmptyAt m roomId)
    (hget : ∀ ref, m.get roomId = some ref → m'.get roomId = some ref)
    (hroom : ∀ ref room, m.room ref = some room → m'.room ref = some room) :
    EmptyAt m' roomId := by
  obtain ⟨ref, room, hmapped, hat, hempty⟩ := h
  exact ⟨ref, room, hget ref hmapped, hroom ref room hat, hempty⟩

variable [DecidableEq ι]

/-- One thread moves: the other threads' listed ids must stay empty, and its own be empty. -/
theorem Spared.move {shardOf : Str → ℕ} {s s' : State ι} {tr out : List (Obs ι)}
    (h : Spared shardOf s tr) {t : ι} {pc : Pc} (hpc : s'.pc = (s.goto t pc).pc)
    (hempty : ∀ roomId ∈ pc.listed, EmptyAt s'.manager roomId)
    (hothers : ∀ u, u ≠ t → ∀ roomId ∈ (s.pc u).listed, EmptyAt s.manager roomId →
      EmptyAt s'.manager roomId)
    (hordered : pc.Ordered shardOf) (htookAll : pc.TookAll)
    (htookOut : ∀ u roomId occupancy, Obs.tookOut u .cleanup roomId occupancy ∈ out →
      occupancy = some (0, 0))
    (hswept : ∀ u n taken, Obs.swept u .cleanup n taken ∈ out → n = taken) :
    Spared shardOf s' (tr ++ out) := by
  refine ⟨?_, ?_, ?_, ?_, ?_⟩
  · intro u roomId hlisted
    rw [hpc, State.goto_pc] at hlisted
    split at hlisted
    · exact hempty roomId hlisted
    · next hne => exact hothers u hne roomId hlisted (h.empty u roomId hlisted)
  · intro u
    rw [hpc, State.goto_pc]
    split
    · exact hordered
    · exact h.ordered u
  · intro u
    rw [hpc, State.goto_pc]
    split
    · exact htookAll
    · exact h.tookAll u
  · intro u roomId room hmem
    obtain hmem | hmem := List.mem_append.1 hmem
    · exact h.tookOut u roomId room hmem
    · exact htookOut u roomId room hmem
  · intro u n taken hmem
    obtain hmem | hmem := List.mem_append.1 hmem
    · exact h.swept u n taken hmem
    · exact hswept u n taken hmem

/-- A thread moves without listing an id, while all mapped rooms stay mapped as they are. -/
theorem Spared.stay {shardOf : Str → ℕ} {s s' : State ι} {tr out : List (Obs ι)}
    (h : Spared shardOf s tr) {t : ι} {pc : Pc} (hpc : s'.pc = (s.goto t pc).pc)
    (hlisted : pc.listed ⊆ (s.pc t).listed)
    (hkept : s.manager.Keeps s'.manager)
    (hordered : pc.Ordered shardOf) (htookAll : pc.TookAll)
    (hout : ∀ o ∈ out, (∀ u roomId room, o ≠ .tookOut u .cleanup roomId room) ∧
      ∀ u n taken, o = .swept u .cleanup n taken → n = taken) :
    Spared shardOf s' (tr ++ out) := by
  apply h.move hpc
  · intro roomId hmem
    exact (h.empty t roomId (hlisted hmem)).congr (hkept.get roomId) hkept.room
  · intro u _ roomId _ hempty
    exact hempty.congr (hkept.get roomId) hkept.room
  · exact hordered
  · exact htookAll
  · intro u roomId room hmem
    exact absurd rfl ((hout _ hmem).1 u roomId room)
  · intro u n taken hmem
    exact (hout _ hmem).2 u n taken rfl

/-- Points outside of a cleanup of the empty rooms. -/
def Pc.Outside : Pc → Prop
  | .enteringShard .cleanup _ _ => False
  | .scanning .cleanup _ _ _ => False
  | .deleting .cleanup _ _ _ => False
  | .closing .cleanup _ _ _ => False
  | _ => True

/-- A thread moves to a point outside, while all mapped rooms stay mapped as they are. -/
theorem Spared.moveOutside {shardOf : Str → ℕ} {s s' : State ι} {tr out : List (Obs ι)}
    (h : Spared shardOf s tr) {t : ι} {pc : Pc} (hpc : s'.pc = (s.goto t pc).pc)
    (houtside : pc.Outside) (hkept : s.manager.Keeps s'.manager)
    (hout : ∀ o ∈ out, (∀ u roomId room, o ≠ .tookOut u .cleanup roomId room) ∧
      ∀ u n taken, o = .swept u .cleanup n taken → n = taken) :
    Spared shardOf s' (tr ++ out) := by
  have hpoint : pc.listed = [] ∧ pc.Ordered shardOf ∧ pc.TookAll := by
    cases pc with
    | enteringShard kind | scanning kind | deleting kind | closing kind =>
      cases kind with
      | cleanup => exact houtside.elim
      | cleanupEmpty => exact ⟨rfl, trivial, trivial⟩
    | _ => exact ⟨rfl, trivial, trivial⟩
  obtain ⟨hlisted, hordered, htookAll⟩ := hpoint
  refine h.stay hpc ?_ hkept hordered htookAll hout
  rw [hlisted]
  exact List.nil_subset _

/-- Unmapping an id that no other thread has listed. -/
theorem Spared.unmap {shardOf : Str → ℕ} {s s' : State ι} {tr out : List (Obs ι)}
    (h : Spared shardOf s tr) {t : ι} {pc : Pc} {roomId : Str}
    (hspares : ∀ u, u ≠ t → roomId ∉ (s.pc u).listed) (hpc : s'.pc = (s.goto t pc).pc)
    (hmanager : s'.manager = { s.manager with rooms := s.manager.rooms.erase roomId })
    (hlisted : ∀ other ∈ pc.listed, other ≠ roomId ∧ other ∈ (s.pc t).listed)
    (hordered : pc.Ordered shardOf) (htookAll : pc.TookAll)
    (htookOut : ∀ u other occupancy, Obs.tookOut u .cleanup other occupancy ∈ out →
      occupancy = some (0, 0))
    (hswept : ∀ u n taken, Obs.swept u .cleanup n taken ∉ out) :
    Spared shardOf s' (tr ++ out) := by
  have hkept : ∀ other, other ≠ roomId → EmptyAt s.manager other → EmptyAt s'.manager other := by
    intro other hne hempty
    rw [hmanager]
    refine hempty.congr (fun ref hget => ?_) fun _ _ hroom => hroom
    exact Map.lookup_erase_eq_some_iff.2 ⟨hne, hget⟩
  refine h.move hpc ?_ ?_ hordered htookAll htookOut ?_
  · intro other hmem
    obtain ⟨hne, hold⟩ := hlisted other hmem
    exact hkept other hne (h.empty t other hold)
  · intro u hu other hmem
    apply hkept other
    intro heq
    exact hspares u hu (heq ▸ hmem)
  · intro u n taken hmem
    exact absurd hmem (hswept u n taken)

omit [DecidableEq ι] in
/-- Using a handle without admitting anybody to a listed room. -/
theorem Spared.use {shardOf : Str → ℕ} {s : State ι} {tr : List (Obs ι)} (h : Spared shardOf s tr)
    {op : RoomOp} {ref : RoomRef} {result : RoomResult} {m : RoomManager}
    (hspares : ∀ ref ∈ op.admits, ∀ u, ∀ roomId ∈ (s.pc u).listed,
      s.manager.get roomId ≠ some ref)
    (hop : op.handle = some ref) (hcall : s.manager.call op = some (result, m)) :
    Spared shardOf (s.withManager m) (tr ++ [.used op result]) := by
  obtain ⟨room, stats, hroom, rfl, _⟩ := RoomManager.call_of_handle hop hcall
  refine ⟨?_, h.ordered, h.tookAll, ?_, ?_⟩
  · intro u roomId hlisted
    obtain ⟨ref', room', hget, hroom', hempty⟩ := h.empty u roomId hlisted
    have hpos := RoomManager.room_modifyRoom s.manager ref op.onRoom ref'
    by_cases heq : ref' = ref
    · rw [if_pos heq, hroom', Option.map_some] at hpos
      refine ⟨ref', op.onRoom room', hget, hpos, RoomManager.onRoom_isEmpty ?_ hempty⟩
      cases hadmits : op.admits with
      | none => rfl
      | some admitted =>
        have hsame : admitted = ref := RoomOp.handle_of_admits hadmits hop
        rw [hsame, ← heq] at hadmits
        exact absurd hget (hspares ref' hadmits u roomId hlisted)
    · rw [if_neg heq, hroom'] at hpos
      exact ⟨ref', room', hget, hpos, hempty⟩
  · intro u roomId room' hmem
    exact h.tookOut u roomId room' (by simpa using hmem)
  · intro u n taken hmem
    exact h.swept u n taken (by simpa using hmem)

/-- Checking a room and listing its id. -/
theorem Spared.list {shardOf : Str → ℕ} {s : State ι} {tr : List (Obs ι)} (h : Spared shardOf s tr)
    {t : ι} {kind : Sweep} {shard : ℕ} {roomId : Str} {todo found : List Str} {ref : RoomRef}
    {room : Room} (hpc : s.pc t = .scanning kind shard (roomId :: todo) found)
    (hget : s.manager.get roomId = some ref) (hroom : s.manager.room ref = some room)
    (hremoves : kind.removes room = true) :
    Spared shardOf (s.goto t (.scanning kind shard todo (found ++ [roomId]))) (tr ++ []) := by
  have hempty := h.empty t
  have hordered := h.ordered t
  rw [hpc] at hempty hordered
  cases kind with
  | cleanupEmpty =>
    exact h.moveOutside rfl trivial (.of_eq rfl rfl) (by simp)
  | cleanup =>
    obtain ⟨hnodup, hfound, htodo⟩ := hordered
    refine h.move rfl ?_ (fun _ _ _ _ hempty => hempty) ?_ trivial (by simp) (by simp)
    · intro other hmem
      obtain hmem | hmem := List.mem_append.1 hmem
      · exact hempty other hmem
      · rw [List.mem_singleton.1 hmem]
        exact ⟨ref, room, hget, hroom, hremoves⟩
    · refine ⟨?_, ?_, fun other hmem => htodo other (List.mem_cons_of_mem _ hmem)⟩
      · rw [List.append_assoc]
        exact hnodup
      · intro other hmem
        obtain hmem | hmem := List.mem_append.1 hmem
        · exact hfound other hmem
        · rw [List.mem_singleton.1 hmem]
          exact Nat.le_of_eq (htodo roomId List.mem_cons_self)

/-- Entering a shard lists the ids of that shard, of which none was found before. -/
theorem Spared.enterShard {shardOf : Str → ℕ} {s : State ι} {tr : List (Obs ι)}
    (h : Spared shardOf s tr) {t : ι} {kind : Sweep} {shard : ℕ} {found : List Str}
    (hpc : s.pc t = .enteringShard kind shard found) (n : ℕ) :
    Spared shardOf ((s.lockShard shard n).goto t (.scanning kind shard
      (s.manager.rooms.keys.filter fun roomId => shardOf roomId = shard) found)) (tr ++ []) := by
  have hordered := h.ordered t
  rw [hpc] at hordered
  refine h.stay rfl ?_ (.of_eq rfl rfl) ?_ trivial (by simp)
  · rw [hpc]
    cases kind <;> exact List.Subset.refl _
  · cases kind with
    | cleanupEmpty => trivial
    | cleanup =>
      obtain ⟨hnodup, hbelow⟩ := hordered
      refine ⟨List.nodup_append.2 ⟨hnodup, s.manager.rooms.keys_nodup.filter _, ?_⟩, ?_, ?_⟩
      · intro roomId hfound other htodo heq
        have hlt := hbelow roomId hfound
        have hshard : shardOf other = shard := by simpa using (List.mem_filter.1 htodo).2
        rw [heq, hshard] at hlt
        exact Nat.lt_irrefl _ hlt
      · exact fun roomId hfound => Nat.le_of_lt (hbelow roomId hfound)
      · intro roomId htodo
        simpa using (List.mem_filter.1 htodo).2

/-- Taking a listed id out of the map. -/
theorem Spared.takeOut {shardOf : Str → ℕ} {s : State ι} {tr : List (Obs ι)}
    (h : Spared shardOf s tr) {t : ι} {kind : Sweep} {roomId : Str} {pending : List Str}
    {listed taken : ℕ} {ref : RoomRef}
    (hspares : ∀ u, u ≠ t → roomId ∉ (s.pc u).listed)
    (hpc : s.pc t = .deleting kind (roomId :: pending) listed taken)
    (hget : s.manager.get roomId = some ref) :
    Spared shardOf ((s.withManager { s.manager with rooms := s.manager.rooms.erase roomId }).goto t
      (.deleting kind pending listed (taken + 1)))
      (tr ++ [.tookOut t kind roomId ((s.manager.room ref).map Room.occupancy)]) := by
  have hempty := h.empty t
  have hordered := h.ordered t
  have htookAll := h.tookAll t
  rw [hpc] at hempty hordered htookAll
  cases kind with
  | cleanupEmpty =>
    refine h.unmap hspares rfl rfl ?_ trivial trivial (by simp) (by simp)
    intro other hmem
    exact absurd hmem List.not_mem_nil
  | cleanup =>
    obtain ⟨hnew, hrest⟩ := List.nodup_cons.1 hordered
    refine h.unmap hspares rfl rfl ?_ hrest ?_ ?_ (by simp)
    · intro other hmem
      rw [hpc]
      exact ⟨fun heq => hnew (heq ▸ hmem), List.mem_cons_of_mem _ hmem⟩
    · have hlength : taken + (pending.length + 1) = listed := htookAll
      change taken + 1 + pending.length = listed
      omega
    · intro u other room hmem
      obtain ⟨_, _, _, rfl⟩ := Obs.tookOut.inj (List.mem_singleton.1 hmem)
      obtain ⟨ref', room', hget', hroom, hroomEmpty⟩ := hempty roomId List.mem_cons_self
      rw [hget, Option.some.injEq] at hget'
      rw [hget', hroom, Option.map_some, Room.isEmpty_iff.1 hroomEmpty]

/-- Every step that spares the listed rooms keeps the invariant. -/
theorem Spared.step {shards : ℕ} {shardOf : Str → ℕ} {s s' : State ι} {e : Event ι}
    {tr out : List (Obs ι)} (h : Spared shardOf s tr) (hspares : SparesListed s e)
    (hstep : Step shards shardOf s e s' out) : Spared shardOf s' (tr ++ out) := by
  cases hstep with
  | call c hpc =>
    cases c with
    | sweep kind =>
      cases kind with
      | cleanup =>
        exact h.stay rfl (List.nil_subset _) (.of_eq rfl rfl)
          ⟨List.nodup_nil, by simp⟩ trivial (by simp)
      | cleanupEmpty =>
        exact h.moveOutside rfl trivial (.of_eq rfl rfl) (by simp)
    | _ =>
      exact h.moveOutside rfl trivial (.of_eq rfl rfl) (by simp)
  | use hop _ hcall => exact h.use hspares hop hcall
  | found | missing | panic | opened | lose | removeMissing | closeRemoved =>
    exact h.moveOutside rfl trivial (.of_eq rfl rfl) (by simp)
  | construct hpc hmade =>
    obtain ⟨rfl, rfl⟩ := RoomManager.construct_eq_some hmade
    refine h.moveOutside rfl trivial ⟨fun _ _ hget => hget, fun ref room hroom => ?_⟩ (by simp)
    have hne := RoomManager.ne_length_of_room hroom
    exact (RoomManager.getElem?_heap_append _ _ ref).trans ((if_neg hne).trans hroom)
  | insert hpc hget =>
    refine h.moveOutside rfl trivial ⟨fun other ref hother => ?_, fun _ _ hroom => hroom⟩ (by simp)
    exact Map.lookup_insert_of_vacant hget hother _
  | @remove t roomId ref hpc hget =>
    have hunmaps : roomId ∈ (s.pc t).unmaps := by rw [hpc]; rfl
    refine h.unmap (hspares roomId hunmaps) rfl rfl ?_ trivial trivial (by simp) (by simp)
    intro other hmem
    exact absurd hmem List.not_mem_nil
  | enterShard hpc => exact h.enterShard hpc _
  | @endScan t kind shard found hpc =>
    have hordered := h.ordered t
    rw [hpc] at hordered
    cases kind with
    | cleanup =>
      refine h.stay rfl ?_ (.of_eq rfl rfl) hordered.1
        (Nat.zero_add _) (by simp)
      rw [hpc]
      exact List.Subset.refl _
    | cleanupEmpty =>
      exact h.moveOutside rfl trivial (.of_eq rfl rfl) (by simp)
  | @leaveShard t kind shard found hpc =>
    have hordered := h.ordered t
    rw [hpc] at hordered
    cases kind with
    | cleanup =>
      obtain ⟨hnodup, hfound, _⟩ := hordered
      rw [List.append_nil] at hnodup
      refine h.stay rfl ?_ (.of_eq rfl rfl)
        ⟨hnodup, fun roomId hmem => Nat.lt_succ_of_le (hfound roomId hmem)⟩ trivial (by simp)
      rw [hpc]
      exact List.Subset.refl _
    | cleanupEmpty =>
      exact h.moveOutside rfl trivial (.of_eq rfl rfl) (by simp)
  | list hpc hget hroom hremoves => exact h.list hpc hget hroom hremoves
  | @keep t kind shard roomId todo found hpc =>
    have hordered := h.ordered t
    rw [hpc] at hordered
    cases kind with
    | cleanup =>
      obtain ⟨hnodup, hfound, htodo⟩ := hordered
      refine h.stay rfl ?_ (.of_eq rfl rfl)
        ⟨hnodup.sublist ((List.sublist_cons_self roomId todo).append_left found), hfound,
          fun other hmem => htodo other (List.mem_cons_of_mem _ hmem)⟩ trivial (by simp)
      rw [hpc]
      exact List.Subset.refl _
    | cleanupEmpty =>
      exact h.moveOutside rfl trivial (.of_eq rfl rfl) (by simp)
  | @allDeleted t kind listed taken hpc =>
    have htookAll := h.tookAll t
    rw [hpc] at htookAll
    cases kind with
    | cleanup =>
      exact h.stay rfl (List.nil_subset _) (.of_eq rfl rfl) trivial
        htookAll.symm (by simp)
    | cleanupEmpty =>
      exact h.moveOutside rfl trivial (.of_eq rfl rfl) (by simp)
  | @takeOut t kind roomId pending listed taken ref hpc hget =>
    have hunmaps : roomId ∈ (s.pc t).unmaps := by rw [hpc]; rfl
    exact h.takeOut (hspares roomId hunmaps) hpc hget
  | @miss t kind roomId pending listed taken hpc hget =>
    cases kind with
    | cleanup =>
      have hempty := h.empty t
      rw [hpc] at hempty
      obtain ⟨ref, _, hmapped, _⟩ := hempty roomId List.mem_cons_self
      rw [hget] at hmapped
      cases hmapped
    | cleanupEmpty =>
      exact h.moveOutside rfl trivial (.of_eq rfl rfl) (by simp)
  | @close t kind left listed taken hpc =>
    have htookAll := h.tookAll t
    rw [hpc] at htookAll
    cases kind with
    | cleanup =>
      exact h.stay rfl (List.nil_subset _) (.of_eq rfl rfl) trivial
        htookAll (by simp)
    | cleanupEmpty =>
      exact h.moveOutside rfl trivial (.of_eq rfl rfl) (by simp)
  | @finish t kind listed taken hpc =>
    have htookAll := h.tookAll t
    rw [hpc] at htookAll
    refine h.moveOutside rfl trivial (.of_eq rfl rfl) ?_
    intro o ho
    rw [List.mem_singleton.1 ho]
    refine ⟨fun u roomId room => nofun, fun u n taken' heq => ?_⟩
    obtain ⟨_, rfl, rfl, rfl⟩ := Obs.swept.inj heq
    exact htookAll

/-- In every run in which nobody joins, subscribes to or unmaps a room that a cleanup has listed,
each room that a cleanup takes out has no participant and no live receiver at that moment, and a
cleanup returns the number of rooms that it took out. -/
theorem cleanup_takes_out_empty_rooms (shards : ℕ) (shardOf : Str → ℕ) (defaultCapacity : ℕ)
    (stats : Option StatsRecorder) {es : List (Event ι)} {s : State ι} {tr : List (Obs ι)}
    (hrun : (machine ι shards shardOf).run es (start (.empty defaultCapacity stats), []) =
      some (s, tr))
    (hspares : (machine ι shards shardOf).Meets (fun s _ e => SparesListed s e) es
      (start (.empty defaultCapacity stats), [])) :
    (∀ t roomId occupancy, Obs.tookOut t .cleanup roomId occupancy ∈ tr →
      occupancy = some (0, 0)) ∧
    ∀ t n taken, Obs.swept t .cleanup n taken ∈ tr → n = taken := by
  have h : Spared shardOf s tr := by
    refine Machine.run_induct (P := Spared shardOf)
      (fun s tr e s' out hP hG he => hP.step hG (step_cases he)) hrun hspares ?_
    refine ⟨fun t roomId hlisted => ?_, fun _ => trivial, fun _ => trivial, by simp, by simp⟩
    exact absurd hlisted List.not_mem_nil
  exact ⟨h.tookOut, h.swept⟩

end AnyChannel

/-- A cleanup runs while another thread makes a room of its own and somebody joins it. -/
def sparingCalls (t u : ι) : List (Event ι) :=
  [.call t (.getOrCreate ['a']), .advance t, .advance t, .advance t, .advance t,
    .call t (.sweep .cleanup), .advance t, .advance t, .advance t, .advance t,
    .call u (.getOrCreate ['b']), .advance u, .advance u, .advance u, .advance u,
    .use (.join 1 7 ['n']), .advance t, .advance t, .advance t, .advance t]

/-- That cleanup takes out one room, and says so. -/
theorem cleanup_takes_out_empty_rooms_sparingCalls : ∃ s tr,
    (machine (Fin 2) 1 fun _ => 0).run (sparingCalls 0 1) (start (.empty 16 none), []) = some (s, tr) ∧
    Obs.swept 0 .cleanup 1 1 ∈ tr ∧ (∀ t n taken, Obs.swept t .cleanup n taken ∈ tr → n = taken) ∧
    ∀ t roomId occupancy, Obs.tookOut t .cleanup roomId occupancy ∈ tr → occupancy = some (0, 0) := by
  have hseen : ((machine (Fin 2) 1 fun _ => 0).run (sparingCalls 0 1) (start (.empty 16 none), [])).map
      (fun c => decide (Obs.swept 0 .cleanup 1 1 ∈ c.2)) = some true := by decide
  obtain ⟨⟨s, tr⟩, hrun, heq⟩ := Option.map_eq_some_iff.1 hseen
  have h := cleanup_takes_out_empty_rooms 1 (fun _ => 0) 16 none hrun (by decide)
  exact ⟨s, tr, hrun, of_decide_eq_true heq, h.2, h.1⟩

/-- Two cleanups list one empty room, which somebody joins before either removes it. -/
def joinedWhileListed (t u : ι) : List (Event ι) :=
  [.call t (.getOrCreate ['a']), .advance t, .advance t, .advance t, .advance t,
    .call t (.sweep .cleanup), .call u (.sweep .cleanup), .advance t, .advance u, .advance t,
    .advance u, .advance t, .advance u, .advance t, .advance u, .use (.join 0 7 ['n']), .advance t,
    .advance u, .advance t, .advance u, .advance t, .advance u, .advance t, .advance u]

/-- One cleanup takes the joined room out of the map, and the other reports a room that it did not
take out. -/
theorem joinedWhileListed_breaks_cleanup : ∃ s tr,
    (machine (Fin 2) 1 fun _ => 0).run (joinedWhileListed 0 1) (start (.empty 16 none), []) =
      some (s, tr) ∧
    Obs.tookOut 0 .cleanup ['a'] (some (1, 0)) ∈ tr ∧ Obs.swept 1 .cleanup 1 0 ∈ tr := by
  have hseen : ((machine (Fin 2) 1 fun _ => 0).run (joinedWhileListed 0 1)
      (start (.empty 16 none), [])).map (fun c => decide (Obs.tookOut 0 .cleanup ['a'] (some (1, 0)) ∈ c.2 ∧
        Obs.swept 1 .cleanup 1 0 ∈ c.2)) = some true := by decide
  obtain ⟨⟨s, tr⟩, hrun, heq⟩ := Option.map_eq_some_iff.1 hseen
  obtain ⟨htookOut, hswept⟩ := of_decide_eq_true heq
  exact ⟨s, tr, hrun, htookOut, hswept⟩

end WsKit.RoomThreads
