import WsKit.LocalHalf
import WsKit.RoomListeners

/-!
# What receivers read, from node to node

A receiver of a room on any node reads frames that somebody broadcast to the room's id, on this
node or on another one. Whatever is lost on the way, no broadcast reaches a receiver twice, and what
comes from other nodes comes in the order in which Redis took it.
-/

namespace WsKit.Cluster

open Base RoomManager

variable {ν : Type*} [DecidableEq ν]

/-! ### Broadcasts behind deliveries -/

omit [DecidableEq ν] in
/-- The number of the broadcast behind a delivery. -/
def Origin.broadcast : Origin ν → ℕ
  | .task k => k
  | .message m => m.task

/-- The broadcast behind a delivery to receivers of a room. -/
def Obs.behind (s : State ν) (x : ν) (ref : RoomRef) : Obs ν → Option (ℕ × Broadcast ν)
  | .delivered y ref' _ origin receivers =>
    if y = x ∧ ref' = ref ∧ receivers ≠ 0 then
      (s.sourceOf origin).map fun source => (origin.broadcast, source)
    else none
  | .handed _ _ _ => none

/-- The broadcasts behind the deliveries to receivers of a room. -/
def State.behind (s : State ν) (tr : List (Obs ν)) (x : ν) (ref : RoomRef) :
    List (ℕ × Broadcast ν) :=
  tr.filterMap (Obs.behind s x ref)

variable {fleet : Fleet ν} {s : State ν} {tr : List (Obs ν)}

/-- The frames sent to a room's receivers are those of the broadcasts behind them. -/
theorem Sound.pushes_eq (h : Sound fleet s tr) (x : ν) (ref : RoomRef) :
    pushes tr x ref = (s.behind tr x ref).map fun r => r.2.frame := by
  rw [pushes, State.behind, List.map_filterMap]
  refine List.filterMap_congr fun o hmem => ?_
  cases o with
  | handed y m hosted => rfl
  | delivered y ref' frame origin receivers =>
    obtain ⟨source, hsource, rfl, -⟩ := h.justified y ref' frame origin receivers hmem
    simp only [Obs.push, Obs.behind]
    split
    · rw [hsource]
      rfl
    · rfl

/-- A message delivered on a node is another node's, and was published. -/
theorem Sound.arrival (h : Sound fleet s tr) {x : ν} {ref : RoomRef} {frame : Frame} {m : Message ν}
    {receivers : ℕ} (hmem : Obs.delivered x ref frame (.message m) receivers ∈ tr) :
    m.source.node ≠ x ∧ m ∈ s.redis.published := by
  have harrived : (m, ref, frame) ∈ arrivals tr x :=
    List.mem_filterMap.2 ⟨_, hmem, if_pos rfl⟩
  have hdue : (m, ref, frame) ∈ due tr x := by
    rw [← h.perMessage x]
    exact List.mem_append_left _ harrived
  obtain ⟨o, -, ho⟩ := List.mem_filterMap.1 hdue
  refine ⟨?_, (h.inOrder.handed_sublist x).subset ((h.arrivals_sublist x).subset
    (List.mem_map_of_mem harrived))⟩
  cases o with
  | delivered y ref' frame' origin receivers' => cases ho
  | handed y m' hosted =>
    cases hosted with
    | none => cases ho
    | some ref' =>
      obtain ⟨⟨-, hother⟩, heq⟩ := Option.ite_none_right_eq_some.1 ho
      cases heq
      exact hother

/-- What is behind a delivery is a broadcast to the id of the room. -/
theorem Sound.behind_task (h : Sound fleet s tr) {x : ν} {ref : RoomRef} {r : ℕ × Broadcast ν}
    (hmem : r ∈ s.behind tr x ref) :
    (∃ phase, s.tasks[r.1]? = some ⟨r.2, phase⟩) ∧ RoomAt (s.manager x) ref r.2.roomId := by
  obtain ⟨o, ho, hbehind⟩ := List.mem_filterMap.1 hmem
  cases o with
  | handed y m hosted => cases hbehind
  | delivered y ref' frame origin receivers =>
    obtain ⟨⟨rfl, rfl, -⟩, hsome⟩ := Option.ite_none_right_eq_some.1 hbehind
    obtain ⟨source, hsource, rfl⟩ := Option.map_eq_some_iff.1 hsome
    obtain ⟨source', hsource', -, hroom, -⟩ := h.justified y ref' frame origin receivers ho
    rw [hsource, Option.some.injEq] at hsource'
    subst hsource'
    refine ⟨?_, hroom⟩
    cases origin with
    | task k =>
      obtain ⟨⟨_, phase⟩, htask, rfl⟩ := Option.map_eq_some_iff.1 hsource
      exact ⟨phase, htask⟩
    | message m =>
      cases hsource
      obtain ⟨result, htask⟩ := (h.genuine m (h.arrival ho).2).returned
      exact ⟨_, htask⟩

/-- A broadcast of the node itself is behind local deliveries only, one of another node behind
deliveries of messages only. -/
theorem Sound.behind_cases (h : Sound fleet s tr) {x : ν} {ref : RoomRef} {o : Obs ν} (hmem : o ∈ tr)
    {r : ℕ × Broadcast ν} (hbehind : o.behind s x ref = some r) :
    if r.2.node = x then o.isLocal r.1 = true
    else ∃ m frame, o.arrival x = some (m, ref, frame) ∧ m.task = r.1 := by
  cases o with
  | handed y m hosted => cases hbehind
  | delivered y ref' frame origin receivers =>
    obtain ⟨⟨rfl, rfl, -⟩, hsome⟩ := Option.ite_none_right_eq_some.1 hbehind
    obtain ⟨source, hsource, rfl⟩ := Option.map_eq_some_iff.1 hsome
    obtain ⟨source', hsource', -, -, hnode⟩ := h.justified y ref' frame origin receivers hmem
    rw [hsource, Option.some.injEq] at hsource'
    subst hsource'
    cases origin with
    | task k =>
      rw [if_pos (hnode k rfl)]
      exact decide_eq_true rfl
    | message m =>
      cases hsource
      rw [if_neg (h.arrival hmem).1]
      exact ⟨m, frame, if_pos rfl, rfl⟩

omit [DecidableEq ν] in
/-- A broadcast is delivered locally at most once. -/
theorem delivered_le_one (s : State ν) (k : ℕ) : s.delivered k ≤ 1 := by
  rw [State.delivered]
  cases s.tasks[k]? with
  | none => exact Nat.zero_le 1
  | some task =>
    rw [Option.elim_some]
    cases task.phase with
    | entering => exact Nat.zero_le 1
    | delivering ref => exact Nat.zero_le 1
    | publishing delivered => exact Nat.le_refl 1
    | returned result =>
      rw [Phase.deliveries]
      split
      · exact Nat.zero_le 1
      · exact Nat.le_refl 1

/-- The broadcasts of messages delivered on a node, in the order of publication. -/
theorem Sound.arrivals_tasks (h : Sound fleet s tr) (x : ν) :
    ((arrivals tr x).map fun a => a.1.task).Sublist (s.redis.published.map Message.task) := by
  have hmessages := ((h.arrivals_sublist x).trans (h.inOrder.handed_sublist x)).map Message.task
  rwa [List.map_map] at hmessages

/-- No broadcast is behind two deliveries to the receivers of one room. -/
theorem Sound.behind_nodup (h : Sound fleet s tr) (x : ν) (ref : RoomRef) :
    ((s.behind tr x ref).map Prod.fst).Nodup := by
  rw [List.nodup_iff_count_le_one]
  intro k
  rw [State.behind, List.map_filterMap, List.count_filterMap]
  -- all deliveries of one broadcast are local, or all are of its message
  cases htask : s.tasks[k]? with
  | none =>
    refine (List.countP_eq_zero.2 fun o hmem hk => ?_).trans_le (Nat.zero_le 1)
    obtain ⟨r, hbehind, rfl⟩ := Option.map_eq_some_iff.1 (beq_iff_eq.1 hk)
    obtain ⟨⟨phase, hsome⟩, -⟩ := h.behind_task (List.mem_filterMap.2 ⟨o, hmem, hbehind⟩)
    rw [htask] at hsome
    cases hsome
  | some task =>
    have hsource : ∀ o ∈ tr, ∀ r, o.behind s x ref = some r → r.1 = k → r.2 = task.source := by
      rintro o hmem r hbehind rfl
      obtain ⟨⟨phase, hsome⟩, -⟩ := h.behind_task (List.mem_filterMap.2 ⟨o, hmem, hbehind⟩)
      rw [htask, Option.some.injEq] at hsome
      rw [hsome]
    by_cases hnode : task.source.node = x
    · refine (List.countP_mono_left fun o hmem hk => ?_).trans
        ((h.once k).trans_le (delivered_le_one s k))
      obtain ⟨r, hbehind, hr⟩ := Option.map_eq_some_iff.1 (beq_iff_eq.1 hk)
      have hlocal := h.behind_cases hmem hbehind
      rw [hsource o hmem r hbehind hr, if_pos hnode, hr] at hlocal
      exact hlocal
    · have honce := List.nodup_iff_count_le_one.1 (h.distinct.sublist (h.arrivals_tasks x)) k
      rw [arrivals, List.map_filterMap, List.count_filterMap] at honce
      refine (List.countP_mono_left fun o hmem hk => ?_).trans honce
      obtain ⟨r, hbehind, hr⟩ := Option.map_eq_some_iff.1 (beq_iff_eq.1 hk)
      have hremote := h.behind_cases hmem hbehind
      rw [hsource o hmem r hbehind hr, if_neg hnode, hr] at hremote
      obtain ⟨m, frame, harrival, hm⟩ := hremote
      rw [harrival, Option.map_some, hm]
      exact beq_self_eq_true (some k)

/-- What receivers are sent from other nodes is in the order of publication. -/
theorem Sound.behind_ordered (h : Sound fleet s tr) (x : ν) (ref : RoomRef) :
    (((s.behind tr x ref).filter fun r => r.2.node ≠ x).map Prod.fst).Sublist
      (s.redis.published.map Message.task) := by
  refine List.Sublist.trans ?_ (h.arrivals_tasks x)
  rw [State.behind, arrivals, List.filter_filterMap, List.map_filterMap, List.map_filterMap]
  apply filterMap_sublist
  intro o hmem
  cases hbehind : o.behind s x ref with
  | none => exact .inl rfl
  | some r =>
    obtain ⟨k, source⟩ := r
    have hcases := h.behind_cases hmem hbehind
    by_cases hnode : source.node = x
    · left
      simp [hnode]
    · right
      rw [if_neg hnode] at hcases
      obtain ⟨m, frame, harrival, hm⟩ := hcases
      simp [hnode, harrival, hm]

/-! ### Receivers at every node -/

/-- A fleet whose rooms have receivers that read. -/
structure Attended (ν : Type*) where
  state : State ν
  passed : ν → RoomRef → ReceiverId → ℕ

/-- An event of the fleet, or a receiver of a room on a node that asks for a frame. -/
inductive Move (ν : Type*) where
  | event (e : Event ν)
  | recv (x : ν) (ref : RoomRef) (rx : ReceiverId)

/-- The rooms of a node and their receivers. -/
def Attended.inUse (s : Attended ν) (x : ν) : InUse := ⟨s.state.manager x, s.passed x⟩

section AnyChannel

variable [ChannelApi Frame]

/-- Events of the fleet and reads one after another. -/
def attended (fleet : Fleet ν) : Machine (Attended ν) (Move ν) (Obs ν) where
  step s
    | .event e => (step fleet s.state e).map fun next => ({ s with state := next.1 }, next.2)
    | .recv x ref rx => (listeners.step (s.inUse x) (.recv ref rx)).map fun next =>
        ({ s with passed := Function.update s.passed x next.1.passed }, [])

/-- A fleet in which no receiver has read anything. -/
def Attended.start (manager : ν → RoomManager) : Attended ν :=
  ⟨Cluster.start manager, fun _ _ _ => 0⟩

/-- The use that a move makes of a node's rooms. -/
def useOn (x : ν) (s : Attended ν) : Move ν → Option Use
  | .event e => (performed x s.state e).map .call
  | .recv y ref rx => if y = x then some (.recv ref rx) else none

/-- What is seen of it. -/
def seenOn (x : ν) (s : Attended ν) (move : Move ν) : List Seen :=
  ((useOn x s move).bind fun use => listeners.step (s.inUse x) use).elim [] Prod.snd

/-- What is seen in a run of a node's rooms. -/
def seen (fleet : Fleet ν) (x : ν) (moves : List (Move ν)) (s : Attended ν) :
    List Seen :=
  (attended fleet).along (seenOn x) moves s

/-- What a receiver of a room on a node was told in a run. -/
def readsOn (fleet : Fleet ν) (x : ν) (ref : RoomRef) (rx : ReceiverId) (moves : List (Move ν)) (s : Attended ν) : List (Received Frame) :=
  Listening.reads (onRoom ref (seen fleet x moves s)) rx

/-! ### Runs -/

/-- A fleet follows the uses of one node's rooms. -/
theorem follows_listeners (fleet : Fleet ν) (x : ν) :
    (attended fleet).Follows listeners (fun s t => t = s.inUse x)
      (fun s move => (useOn x s move).toList) (seenOn x) := by
  rintro s _ move s' out rfl hstep
  have hmatch : ∀ use t' out', useOn x s move = some use →
      listeners.step (s.inUse x) use = some (t', out') →
      ∀ tr, listeners.run (useOn x s move).toList (s.inUse x, tr) =
        some (t', tr ++ seenOn x s move) := by
    intro use t' out' huse hused tr
    have hseen : seenOn x s move = out' := by
      rw [seenOn, huse, Option.bind_some, hused, Option.elim_some]
    rw [hseen, huse, Option.toList_some, Machine.run, hused, Option.bind_some, Machine.run]
  have hquiet : useOn x s move = none → ∀ tr, listeners.run (useOn x s move).toList
      (s.inUse x, tr) = some (s.inUse x, tr ++ seenOn x s move) := by
    intro hnone tr
    rw [seenOn, hnone, Option.bind_none, Option.elim_none, List.append_nil, Option.toList_none,
      Machine.run]
  cases move with
  | event e =>
    obtain ⟨⟨next, shown⟩, hnext, heq⟩ := Option.map_eq_some_iff.1 hstep
    obtain ⟨rfl, -⟩ := Prod.mk.inj heq
    have hperforms := performs_of_step hnext x
    cases hperformed : performed x s.state e with
    | none =>
      rw [hperformed] at hperforms
      have huse : useOn x s (.event e) = none := by rw [useOn, hperformed, Option.map_none]
      refine ⟨s.inUse x, hquiet huse, ?_⟩
      exact congrArg (fun m => InUse.mk m (s.passed x)) (Eq.symm hperforms)
    | some op =>
      rw [hperformed] at hperforms
      obtain ⟨result, hcall⟩ := hperforms
      have huse : useOn x s (.event e) = some (.call op) := by rw [useOn, hperformed, Option.map_some]
      refine ⟨⟨next.manager x, s.passed x⟩, hmatch _ _ [.called op result] huse ?_, rfl⟩
      simp only [listeners, Attended.inUse, hcall, Option.map_some]
  | recv y ref rx =>
    obtain ⟨⟨next, shown⟩, hnext, heq⟩ := Option.map_eq_some_iff.1 hstep
    obtain ⟨rfl, -⟩ := Prod.mk.inj heq
    by_cases hy : y = x
    · subst hy
      have huse : useOn y s (.recv y ref rx) = some (.recv ref rx) := if_pos rfl
      refine ⟨next, hmatch _ _ shown huse hnext, ?_⟩
      obtain ⟨room, -, hread⟩ := Option.bind_eq_some_iff.1 hnext
      obtain ⟨got, -, hgot⟩ := Option.map_eq_some_iff.1 hread
      obtain ⟨rfl, -⟩ := Prod.mk.inj hgot
      simp only [Attended.inUse, Function.update_self]
    · have huse : useOn x s (.recv y ref rx) = none := if_neg hy
      refine ⟨s.inUse x, hquiet huse, ?_⟩
      simp only [Attended.inUse, Function.update_of_ne (Ne.symm hy)]

/-- The fan-out of a fleet whose receivers read stays sound. -/
theorem sound_attended (fleet : Fleet ν) (hids : Function.Injective fleet.nodeId)
    (settings : ν → ℕ × Option StatsRecorder) {moves : List (Move ν)} {s : Attended ν}
    (hrun : (attended fleet).run moves
      (.start fun x => .empty (settings x).1 (settings x).2, []) = some (s, tr)) :
    Sound fleet s.state tr := by
  refine Machine.run_induct_all (P := fun s tr => Sound fleet s.state tr) ?_ hrun
    (sound_start fleet settings)
  intro s tr move s' out h hstep
  cases move with
  | event e =>
    obtain ⟨⟨next, shown⟩, hnext, heq⟩ := Option.map_eq_some_iff.1 hstep
    obtain ⟨rfl, rfl⟩ := Prod.mk.inj heq
    exact h.step hids (step_cases hnext)
  | recv y ref rx =>
    obtain ⟨next, -, heq⟩ := Option.map_eq_some_iff.1 hstep
    obtain ⟨rfl, rfl⟩ := Prod.mk.inj heq
    rw [List.append_nil]
    exact h

/-- In every run of a fleet with distinct node ids, whatever is lost and however slowly receivers
read, what a receiver of a room on any node has read are the frames of different broadcasts to the
room's id; those of other nodes' broadcasts are read in the order in which Redis took them. -/
theorem received_once (fleet : Fleet ν) (hids : Function.Injective fleet.nodeId)
    (settings : ν → ℕ × Option StatsRecorder) {moves : List (Move ν)} {s : Attended ν}
    (hrun : (attended fleet).run moves
      (.start fun x => .empty (settings x).1 (settings x).2, []) = some (s, tr))
    {x : ν} {ref : RoomRef} {room : Room} (hroom : (s.state.manager x).room ref = some room)
    (rx : ReceiverId) :
    ∃ read : List (ℕ × Broadcast ν),
      Listening.messages (readsOn fleet x ref rx moves
        (.start fun x => .empty (settings x).1 (settings x).2)) = read.map (fun r => r.2.frame) ∧
      (read.map Prod.fst).Nodup ∧
      (∀ r ∈ read, (∃ phase, s.state.tasks[r.1]? = some ⟨r.2, phase⟩) ∧ r.2.roomId = room.id) ∧
      ((read.filter fun r => r.2.node ≠ x).map Prod.fst).Sublist
        (s.state.redis.published.map Message.task) := by
  have hsound := sound_attended fleet hids settings hrun
  obtain ⟨t, hmatched, rfl⟩ := (follows_listeners fleet x).run hrun rfl
  have hheard := Machine.run_induct_all (P := Heard) (fun _ _ _ _ _ h hstep => h.step hstep)
    (hmatched []) (heard_start (settings x).1 (settings x).2)
  have haccounted := hheard.accounted ref room hroom
  have hsent : room.tx.sent = (s.state.behind tr x ref).map fun r => r.2.frame := by
    rw [← hsound.pushes_eq, ← hsound.sent x ref, sent, hroom]
    rfl
  have hread := ((haccounted.accounts rx).messages_sublist.trans (List.take_sublist _ _)).trans
    (Listening.offered_sublist _ rx)
  rw [← haccounted.sent, hsent] at hread
  obtain ⟨read, hsublist, hmessages⟩ := List.sublist_map_iff.1 hread
  refine ⟨read, hmessages, (hsound.behind_nodup x ref).sublist (hsublist.map _), ?_, ?_⟩
  · intro r hr
    obtain ⟨htask, room', hroom', hid⟩ := hsound.behind_task (hsublist.subset hr)
    rw [hroom, Option.some.injEq] at hroom'
    rw [hroom']
    exact ⟨htask, hid.symm⟩
  · exact ((hsublist.filter _).map _).trans (hsound.behind_ordered x ref)

end AnyChannel

/-- The lobby broadcast, read by the receivers of both nodes. -/
def readLobby (x y : ν) : List (Move ν) :=
  (lobbyBroadcast x y).map .event ++ [.recv x 0 0, .recv y 0 0]

/-- The other node's receiver has read the broadcast. -/
theorem received_once_readLobby : ∃ s tr, ∃ read : List (ℕ × Broadcast (Fin 2)),
    (attended twoNodes).run (readLobby 0 1) (.start fun _ => .empty 16 none, []) =
      some (s, tr) ∧
    read.map (fun r => r.2.frame) = [.binary [7]] ∧ (read.map Prod.fst).Nodup ∧
    ((read.filter fun r => r.2.node ≠ 1).map Prod.fst).Sublist
      (s.state.redis.published.map Message.task) := by
  have hseen : ((attended twoNodes).run (readLobby 0 1) (.start fun _ => .empty 16 none, [])).any
      (fun c => ((c.1.state.manager 1).room 0).isSome) := by decide
  have hread : Listening.messages (readsOn twoNodes 1 0 0 (readLobby 0 1)
      (.start fun _ => .empty 16 none)) = [.binary [7]] := by decide
  obtain ⟨⟨s, tr⟩, hrun, hsome⟩ := (Option.any_eq_true _ _).1 hseen
  obtain ⟨room, hroom⟩ := Option.isSome_iff_exists.1 hsome
  have hids : Function.Injective twoNodes.nodeId := by decide
  obtain ⟨read, hmessages, honce, -, hordered⟩ :=
    received_once twoNodes hids (fun _ => (16, none)) hrun hroom 0
  exact ⟨s, tr, read, hrun, hmessages.symm.trans hread, honce, hordered⟩

end WsKit.Cluster
