import WsKit.FanOut

/-!
# What one step of a fleet does

For each part of the state, and each reading of the trace, what every step leaves alone and
what it adds.
-/

namespace WsKit.Cluster

open Base

variable {ν : Type*}

variable [DecidableEq ν]

/-- The managers after one node's manager changed. -/
theorem withManager_manager (s : State ν) (x : ν) (m : RoomManager) (y : ν) :
    (s.withManager x m).manager y = if y = x then m else s.manager y :=
  Function.update_apply ..

/-- The loops after one node's loop moved on. -/
theorem withLoop_loop (s : State ν) (x : ν) (loop : Loop ν) (y : ν) :
    (s.withLoop x loop).loop y = if y = x then loop else s.loop y :=
  Function.update_apply ..

omit [DecidableEq ν] in
/-- The tasks after one of them moved on. -/
theorem setPhase_tasks (s : State ν) (k : ℕ) (phase : Phase) (k' : ℕ) :
    (s.setPhase k phase).tasks[k']? =
      if k' = k then (s.tasks[k']?).map fun task => ⟨task.source, phase⟩ else s.tasks[k']? := by
  simp only [State.setPhase, List.getElem?_modify]
  by_cases heq : k' = k
  · simp [heq]
  · simp [heq, Ne.symm heq]

variable {fleet : Fleet ν} {s s' : State ν} {e : Event ν} {out : List (Obs ν)}

omit [DecidableEq ν] in
/-- What a single observation pushes. -/
theorem pushes_delivered [DecidableEq ν] (x y : ν) (ref ref' : RoomRef) (frame : Frame)
    (origin : Origin ν) (receivers : ℕ) :
    pushes [.delivered y ref' frame origin receivers] x ref =
      if y = x ∧ ref' = ref ∧ receivers ≠ 0 then [frame] else [] := by
  simp only [pushes, List.filterMap_cons, List.filterMap_nil, Obs.push]
  split <;> simp_all

/-- A message that carries a broadcast's envelope leads every node to the room that it hosts under
the broadcast's id, and the node that published it nowhere. -/
theorem Genuine.onMessage (hids : Function.Injective fleet.nodeId) {m : Message ν}
    (h : Genuine fleet s m) (x : ν) :
    (fleet.registry s x).onMessage m.channel m.payload =
      if m.source.node = x then none
      else ((s.manager x).get m.source.roomId).map fun ref => (ref, m.source.frame) := by
  have hmessage := @RedisRoomRegistry.onMessage_publishCommand (fleet.registry s m.source.node)
    (fleet.registry s x) rfl m.source.frame m.source.roomId
  have hchannel : m.channel = ((fleet.registry s m.source.node).publishCommand m.source.frame
    m.source.roomId).1 := h.channel
  have hpayload : m.payload = ((fleet.registry s m.source.node).publishCommand m.source.frame
    m.source.roomId).2 := h.payload
  rw [hchannel, hpayload, hmessage]
  by_cases hself : m.source.node = x
  · rw [if_pos hself]
    exact if_pos (congrArg fleet.nodeId hself)
  · rw [if_neg hself]
    exact if_neg fun hid => hself (hids hid)

variable [ChannelApi Frame]

/-- A step leaves a manager alone or makes one call on it. -/
theorem Step.manager (h : Step fleet s e s' out) (x : ν) :
    s'.manager x = s.manager x ∨
      ∃ op result, (s.manager x).call op = some (result, s'.manager x) := by
  have hcase : ∀ {y : ν} {m : RoomManager} {op : RoomOp} {result : RoomResult},
      (s.manager y).call op = some (result, m) →
      (s.withManager y m).manager x = s.manager x ∨
        ∃ op result, (s.manager x).call op = some (result, (s.withManager y m).manager x) := by
    intro y m op result hcall
    rw [withManager_manager]
    by_cases heq : x = y
    · rw [if_pos heq, heq]
      exact .inr ⟨op, result, hcall⟩
    · rw [if_neg heq]
      exact .inl rfl
  cases h with
  | use hop hcall => exact hcase hcall
  | enter htask hcall => exact hcase hcall
  | deliver htask hsent => exact hcase (RoomManager.call_of_broadcast hsent)
  | apply hloop hsent => exact hcase (RoomManager.call_of_broadcast hsent)
  | broadcast source => exact .inl rfl
  | panic htask => exact .inl rfl
  | publish htask hreached => exact .inl rfl
  | publishLost htask hreached => exact .inl rfl
  | lose y i => exact .inl rfl
  | receive hloop hhand => exact .inl rfl

/-- Rooms stay under their ids. -/
theorem Step.roomAt (h : Step fleet s e s' out) {x : ν} {ref : RoomRef} {roomId : Str}
    (hroom : RoomAt (s.manager x) ref roomId) : RoomAt (s'.manager x) ref roomId := by
  obtain heq | ⟨op, result, hcall⟩ := h.manager x
  · rw [heq]
    exact hroom
  · obtain ⟨room, hroom, hid⟩ := hroom
    obtain ⟨room', hroom', hid'⟩ := RoomManager.id_of_call hcall hroom
    exact ⟨room', hroom', hid'.trans hid⟩

/-- What was sent to a room grows by what the step shows. -/
theorem Step.sent (h : Step fleet s e s' out) (x : ν) (ref : RoomRef) :
    (s'.manager x).sent ref = (s.manager x).sent ref ++ pushes out x ref := by
  have hcalled : ∀ {y : ν} {m : RoomManager} {op : RoomOp} {result : RoomResult},
      op.sends = false → (s.manager y).call op = some (result, m) →
      ((s.withManager y m).manager x).sent ref = (s.manager x).sent ref ++ [] := by
    intro y m op result hop hcall
    rw [withManager_manager, List.append_nil]
    by_cases heq : x = y
    · rw [if_pos heq, heq]
      exact RoomManager.sent_of_call hop hcall ref
    · rw [if_neg heq]
  have hsends : ∀ {y : ν} {ref' : RoomRef} {frame : Frame} {result : Outcome WsError ℕ}
      {m : RoomManager} (origin : Origin ν), (s.manager y).broadcast ref' frame = some (result, m) →
      ((s.withManager y m).manager x).sent ref = (s.manager x).sent ref ++
        pushes [.delivered y ref' frame origin ((s.manager y).receivers ref')] x ref := by
    intro y ref' frame result m origin hsent
    rw [withManager_manager, pushes_delivered]
    by_cases heq : x = y
    · subst heq
      rw [if_pos rfl, RoomManager.sent_of_broadcast hsent]
      simp only [true_and, eq_comm]
    · rw [if_neg heq, if_neg fun h => heq h.1.symm, List.append_nil]
  cases h with
  | use hop hcall => exact hcalled hop hcall
  | enter htask hcall => exact hcalled rfl hcall
  | deliver htask hsent => exact hsends _ hsent
  | apply hloop hsent => exact hsends _ hsent
  | broadcast source => exact (List.append_nil _).symm
  | panic htask => exact (List.append_nil _).symm
  | publish htask hreached => exact (List.append_nil _).symm
  | publishLost htask hreached => exact (List.append_nil _).symm
  | lose y i => exact (List.append_nil _).symm
  | receive hloop hhand => exact (List.append_nil _).symm

/-- A broadcast keeps its arguments, and stays where it is once it has returned. -/
theorem Step.task (h : Step fleet s e s' out) {k : ℕ} {source : Broadcast ν} {phase : Phase}
    (htask : s.tasks[k]? = some ⟨source, phase⟩) :
    ∃ phase', s'.tasks[k]? = some ⟨source, phase'⟩ ∧
      ∀ result, phase = .returned result → phase' = phase := by
  have hmoved : ∀ {k' : ℕ} {source' : Broadcast ν} {phase' next : Phase} {t : State ν},
      t.tasks = s.tasks → s.tasks[k']? = some ⟨source', phase'⟩ →
      (∀ result, phase' ≠ .returned result) →
      ∃ phase', (t.setPhase k' next).tasks[k]? = some ⟨source, phase'⟩ ∧
        ∀ result, phase = .returned result → phase' = phase := by
    intro k' source' phase' next t ht htask' hlive
    rw [setPhase_tasks, ht, htask]
    by_cases heq : k = k'
    · rw [if_pos heq]
      rw [← heq, htask, Option.some.injEq, Task.mk.injEq] at htask'
      refine ⟨next, rfl, fun result hreturned => ?_⟩
      exact absurd (htask'.2.symm.trans hreturned) (hlive result)
    · rw [if_neg heq]
      exact ⟨phase, rfl, fun _ _ => rfl⟩
  cases h with
  | enter htask' hcall => exact hmoved (by rfl) htask' (by simp)
  | panic htask' => exact hmoved rfl htask' (by simp)
  | deliver htask' hsent => exact hmoved (by rfl) htask' (by simp)
  | publish htask' hreached => exact hmoved (by rfl) htask' (by simp)
  | publishLost htask' hreached => exact hmoved rfl htask' (by simp)
  | broadcast source' =>
    refine ⟨phase, ?_, fun _ _ => rfl⟩
    exact List.getElem?_append_left (List.getElem?_eq_some_iff.1 htask).1 |>.trans htask
  | use hop hcall => exact ⟨phase, htask, fun _ _ => rfl⟩
  | apply hloop hsent => exact ⟨phase, htask, fun _ _ => rfl⟩
  | lose y i => exact ⟨phase, htask, fun _ _ => rfl⟩
  | receive hloop hhand => exact ⟨phase, htask, fun _ _ => rfl⟩

/-- A step leaves the hosted rooms of every node alone that makes no local call and asks for no
local room. -/
theorem Step.rooms (h : Step fleet s e s' out) {x : ν} (hx : e.rehosts s ≠ some x) :
    (s'.manager x).rooms = (s.manager x).rooms := by
  have hother : ∀ {y : ν} (m : RoomManager), some y ≠ some x →
      ((s.withManager y m).manager x).rooms = (s.manager x).rooms := by
    intro y m hne
    rw [withManager_manager, if_neg fun heq => hne (congrArg some heq.symm)]
  have hsends : ∀ {y : ν} {ref : RoomRef} {frame : Frame} {result : Outcome WsError ℕ}
      {m : RoomManager}, (s.manager y).broadcast ref frame = some (result, m) →
      ((s.withManager y m).manager x).rooms = (s.manager x).rooms := by
    intro y ref frame result m hsent
    rw [withManager_manager]
    split
    · next heq =>
      rw [heq]
      exact RoomManager.rooms_of_handle rfl (RoomManager.call_of_broadcast hsent)
    · rfl
  cases h with
  | use hop hcall => exact hother _ hx
  | enter htask hcall =>
    rw [Event.rehosts, htask] at hx
    exact hother _ hx
  | deliver htask hsent => exact hsends hsent
  | apply hloop hsent => exact hsends hsent
  | broadcast source => rfl
  | panic htask => rfl
  | publish htask hreached => rfl
  | publishLost htask hreached => rfl
  | lose y i => rfl
  | receive hloop hhand => rfl

/-- The number of local deliveries owed grows by what the step shows. -/
theorem Step.delivered (h : Step fleet s e s' out) (k : ℕ) :
    s'.delivered k = s.delivered k + deliveries out k := by
  have hmoved : ∀ (n : ℕ) (next : Phase) {k' : ℕ} {source : Broadcast ν} {phase : Phase}
      {t : State ν}, t.tasks = s.tasks → s.tasks[k']? = some ⟨source, phase⟩ →
      next.deliveries = phase.deliveries + n →
      (t.setPhase k' next).delivered k = s.delivered k + if k = k' then n else 0 := by
    intro n next k' source phase t ht htask hnext
    rw [State.delivered, State.delivered, setPhase_tasks, ht]
    by_cases heq : k = k'
    · rw [if_pos heq, if_pos heq, heq, htask]
      exact hnext
    · rw [if_neg heq, if_neg heq, Nat.add_zero]
  have hlost : ∀ {k' : ℕ} {source : Broadcast ν} {delivered : ℕ} {outcome : PublishEnd}
      {t : State ν}, t.tasks = s.tasks → s.tasks[k']? = some ⟨source, .publishing delivered⟩ →
      (t.setPhase k' (.returned (outcome.result delivered))).delivered k = s.delivered k + 0 := by
    intro k' source delivered outcome t ht htask
    have hmove := hmoved 0 (.returned (outcome.result delivered)) ht htask (by
      cases outcome <;> rfl)
    rwa [ite_self] at hmove
  cases h with
  | @deliver k' source ref result m htask hsent =>
    rw [hmoved 1 _ (by rfl) htask rfl]
    by_cases heq : k = k'
    · simp [deliveries, Obs.isLocal, heq]
    · simp [deliveries, Obs.isLocal, heq, Ne.symm heq]
  | @enter k' source ref m htask hcall =>
    have hmove := hmoved 0 (.delivering ref) (by rfl) htask rfl
    rwa [ite_self] at hmove
  | panic htask =>
    have hmove := hmoved 0 (.returned (.error .panicked)) rfl htask rfl
    rwa [ite_self] at hmove
  | publish htask hreached => exact hlost (by rfl) htask
  | publishLost htask hreached => exact hlost rfl htask
  | broadcast source =>
    rw [State.delivered, State.delivered, List.getElem?_append]
    by_cases hlt : k < s.tasks.length
    · rw [if_pos hlt]
      rfl
    · rw [if_neg hlt, List.getElem?_eq_none (Nat.le_of_not_lt hlt)]
      cases hk : k - s.tasks.length <;> simp [Phase.deliveries, deliveries]
  | use hop hcall => rfl
  | apply hloop hsent => rfl
  | lose y i => rfl
  | receive hloop hhand => rfl

/-- Messages published stay published, and a new one is that of a broadcast which has returned. -/
theorem Step.published (h : Step fleet s e s' out) :
    s'.redis.published = s.redis.published ∨
      ∃ k source delivered result, s.tasks[k]? = some ⟨source, .publishing delivered⟩ ∧
        s'.tasks[k]? = some ⟨source, .returned result⟩ ∧
        s'.redis.published = s.redis.published ++ [fleet.message s k source] := by
  cases h with
  | @publish k source delivered outcome htask hreached =>
    refine .inr ⟨k, source, delivered, outcome.result delivered, htask, ?_, rfl⟩
    have hold : (s.send fleet k source).tasks[k]? = some ⟨source, .publishing delivered⟩ := htask
    rw [setPhase_tasks, if_pos rfl, hold, Option.map_some]
  | receive hloop hhand =>
    obtain ⟨rest, _, rfl⟩ := Broker.hand_eq_some hhand
    exact .inl rfl
  | _ => exact .inl rfl

/-- A broadcast that is about to send was so before, or has just been given the room that its
node hosts under its id. -/
theorem Step.delivering (h : Step fleet s e s' out) {k : ℕ} {source : Broadcast ν} {ref : RoomRef}
    (htask : s'.tasks[k]? = some ⟨source, .delivering ref⟩) :
    s.tasks[k]? = some ⟨source, .delivering ref⟩ ∨
      (s'.manager source.node).get source.roomId = some ref := by
  have hmoved : ∀ {k' : ℕ} {next : Phase} {t : State ν}, t.tasks = s.tasks →
      (∀ ref, next ≠ .delivering ref) → (t.setPhase k' next).tasks[k]? = some ⟨source, .delivering ref⟩ →
      s.tasks[k]? = some ⟨source, .delivering ref⟩ := by
    intro k' next t ht hnext htask
    rw [setPhase_tasks, ht] at htask
    split at htask
    · obtain ⟨task, _, heq⟩ := Option.map_eq_some_iff.1 htask
      exact absurd (Task.mk.inj heq).2 (hnext ref)
    · exact htask
  cases h with
  | @enter k' source' ref' m htask' hcall =>
    rw [setPhase_tasks] at htask
    split at htask
    · next heq =>
      have hold : (s.withManager source'.node m).tasks[k]? = some ⟨source', .entering⟩ :=
        heq ▸ htask'
      rw [hold, Option.map_some, Option.some.injEq, Task.mk.injEq, Phase.delivering.injEq] at htask
      obtain ⟨rfl, rfl⟩ := htask
      refine .inr ?_
      change ((s.withManager source'.node m).manager source'.node).get source'.roomId = some ref'
      rw [withManager_manager, if_pos rfl]
      exact RoomManager.get_of_getOrCreate hcall
    · exact .inl htask
  | panic htask' => exact .inl (hmoved rfl (by simp) htask)
  | deliver htask' hsent => exact .inl (hmoved (by rfl) (by simp) htask)
  | publish htask' hreached => exact .inl (hmoved (by rfl) (by simp) htask)
  | publishLost htask' hreached => exact .inl (hmoved rfl (by simp) htask)
  | broadcast source' =>
    rw [List.getElem?_append] at htask
    split at htask
    · exact .inl htask
    · cases hk : k - s.tasks.length <;> simp [hk] at htask
  | use hop hcall => exact .inl htask
  | apply hloop hsent => exact .inl htask
  | lose y i => exact .inl htask
  | receive hloop hhand => exact .inl htask

/-- What a step delivers is what a broadcast or a loop was about to send. -/
theorem Step.shows (h : Step fleet s e s' out) {x : ν} {ref : RoomRef} {frame : Frame}
    {origin : Origin ν} {receivers : ℕ}
    (hmem : Obs.delivered x ref frame origin receivers ∈ out) :
    (∃ k source, origin = .task k ∧ s.tasks[k]? = some ⟨source, .delivering ref⟩ ∧
        source.node = x ∧ source.frame = frame) ∨
      ∃ m, origin = .message m ∧ s.loop x = .applying m ref frame := by
  cases h with
  | @deliver k source ref' result m htask hsent =>
    cases List.mem_singleton.1 hmem
    exact .inl ⟨k, source, rfl, htask, rfl, rfl⟩
  | apply hloop hsent =>
    cases List.mem_singleton.1 hmem
    exact .inr ⟨_, rfl, hloop⟩
  | receive hloop hhand => cases List.mem_singleton.1 hmem
  | use hop hcall => cases hmem
  | broadcast source => cases hmem
  | enter htask hcall => cases hmem
  | panic htask => cases hmem
  | publish htask hreached => cases hmem
  | publishLost htask hreached => cases hmem
  | lose y i => cases hmem

end WsKit.Cluster
