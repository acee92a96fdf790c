import WsKit.FanOutSteps
import WsKit.RoomRefinement

/-!
# The fan-out is safe

Redis hands each node what was published in order, a loop handles one message at a time, and
a message carries the arguments of the one broadcast that published it. From these the
deliveries on every node follow.
-/

namespace WsKit.Cluster

open Base

variable {ν : Type*}

/-- What every run keeps. -/
structure Sound [DecidableEq ν] (fleet : Fleet ν) (s : State ν) (tr : List (Obs ν)) : Prop where
  wellFormed : ∀ x, (s.manager x).WellFormed
  sent : ∀ x ref, (s.manager x).sent ref = pushes tr x ref
  once : ∀ k, deliveries tr k = s.delivered k
  delivering : ∀ (k : ℕ) (source : Broadcast ν) (ref : RoomRef),
    s.tasks[k]? = some ⟨source, .delivering ref⟩ →
    RoomAt (s.manager source.node) ref source.roomId
  applying : ∀ x m ref frame, s.loop x = .applying m ref frame →
    frame = m.source.frame ∧ RoomAt (s.manager x) ref m.source.roomId
  justified : ∀ x ref frame origin receivers,
    Obs.delivered x ref frame origin receivers ∈ tr → s.Justifies x ref frame origin
  genuine : ∀ m ∈ s.redis.published, Genuine fleet s m
  distinct : (s.redis.published.map Message.task).Nodup
  inOrder : s.redis.InOrder (handed tr)
  perMessage : ∀ x, arrivals tr x ++ (s.loop x).pending = due tr x

namespace Sound

variable [DecidableEq ν] {fleet : Fleet ν} {s s' : State ν} {e : Event ν} {tr out : List (Obs ν)}

/-- What is about to be done with the next message of a loop. -/
theorem onMessage_of_hand (h : Sound fleet s tr) (hids : Function.Injective fleet.nodeId) {x : ν}
    {message : Message ν} {redis : Broker ν (Message ν)}
    (hhand : s.redis.hand x = some (message, redis)) :
    (fleet.registry s x).onMessage message.channel message.payload =
      if message.source.node = x then none
      else ((s.manager x).get message.source.roomId).map fun ref => (ref, message.source.frame) :=
  (h.genuine message (h.inOrder.mem_published hhand)).onMessage hids x

omit [DecidableEq ν] in
/-- What a loop is about to deliver after it has located a room. -/
theorem pending_after (m : Message ν) (found : Option (RoomRef × Frame)) :
    (Loop.after m found).pending = (found.map fun located => (m, located.1, located.2)).toList := by
  cases found <;> rfl

/-- What one handed message makes due. -/
theorem due_handed (x y : ν) (m : Message ν) (hosted : Option RoomRef) :
    due [.handed y m hosted] x = if y = x ∧ m.source.node ≠ x then
      (hosted.map fun ref => (m, ref, m.source.frame)).toList else [] := by
  cases hosted with
  | none => exact (ite_self _).symm
  | some ref =>
    simp only [due, List.filterMap_cons, List.filterMap_nil, Obs.due]
    split <;> simp_all

variable [ChannelApi Frame]

/-- Managers stay well formed. -/
theorem wellFormed_step (h : Sound fleet s tr) (hstep : Step fleet s e s' out) (x : ν) :
    (s'.manager x).WellFormed := by
  obtain heq | ⟨op, result, hcall⟩ := hstep.manager x
  · rw [heq]
    exact h.wellFormed x
  · exact ((h.wellFormed x).refines_call hcall).wellFormed

/-- A broadcast that is about to send has the room of its id. -/
theorem delivering_step (h : Sound fleet s tr) (hstep : Step fleet s e s' out) {k : ℕ}
    {source : Broadcast ν} {ref : RoomRef} (htask : s'.tasks[k]? = some ⟨source, .delivering ref⟩) :
    RoomAt (s'.manager source.node) ref source.roomId := by
  obtain hold | hget := hstep.delivering htask
  · exact hstep.roomAt (h.delivering k source ref hold)
  · exact (h.wellFormed_step hstep source.node).mapped _ _ hget

/-- Deliveries stay justified, and new ones are. -/
theorem justified_step (h : Sound fleet s tr) (hstep : Step fleet s e s' out) {x : ν}
    {ref : RoomRef} {frame : Frame} {origin : Origin ν} {receivers : ℕ}
    (hmem : Obs.delivered x ref frame origin receivers ∈ tr ++ out) :
    s'.Justifies x ref frame origin := by
  have hkeeps : s.Justifies x ref frame origin → s'.Justifies x ref frame origin := by
    intro hold
    obtain ⟨source, hsource, hframe, hroom, hnode⟩ := hold
    refine ⟨source, ?_, hframe, hstep.roomAt hroom, hnode⟩
    cases origin with
    | message m => exact hsource
    | task k =>
      obtain ⟨⟨source', phase⟩, htask, heq⟩ := Option.map_eq_some_iff.1 hsource
      obtain rfl : source' = source := heq
      obtain ⟨phase', htask', _⟩ := hstep.task htask
      exact Option.map_eq_some_iff.2 ⟨⟨source', phase'⟩, htask', rfl⟩
  obtain hold | hnew := List.mem_append.1 hmem
  · exact hkeeps (h.justified x ref frame origin receivers hold)
  · apply hkeeps
    obtain ⟨k, source, rfl, htask, rfl, rfl⟩ | ⟨m, rfl, hloop⟩ := hstep.shows hnew
    · refine ⟨source, Option.map_eq_some_iff.2 ⟨_, htask, rfl⟩, rfl, h.delivering k source ref htask,
        fun _ _ => rfl⟩
    · obtain ⟨hframe, hroom⟩ := h.applying x m ref frame hloop
      exact ⟨m.source, rfl, hframe, hroom, fun k heq => by cases heq⟩

/-- Messages stay genuine, and a new one is. -/
theorem genuine_step (h : Sound fleet s tr) (hstep : Step fleet s e s' out) {m : Message ν}
    (hmem : m ∈ s'.redis.published) : Genuine fleet s' m := by
  have hkeeps : m ∈ s.redis.published → Genuine fleet s' m := by
    intro hold
    obtain ⟨⟨result, htask⟩, hchannel, hpayload⟩ := h.genuine m hold
    obtain ⟨phase', htask', hfinal⟩ := hstep.task htask
    rw [hfinal result rfl] at htask'
    exact ⟨⟨result, htask'⟩, hchannel, hpayload⟩
  obtain heq | ⟨k, source, delivered, result, _, htask, heq⟩ := hstep.published
  · rw [heq] at hmem
    exact hkeeps hmem
  · rw [heq] at hmem
    obtain hold | hnew := List.mem_append.1 hmem
    · exact hkeeps hold
    · rw [List.mem_singleton.1 hnew]
      exact ⟨⟨result, htask⟩, rfl, rfl⟩

/-- Every broadcast publishes at most one message. -/
theorem distinct_step (h : Sound fleet s tr) (hstep : Step fleet s e s' out) :
    (s'.redis.published.map Message.task).Nodup := by
  obtain heq | ⟨k, source, delivered, result, htask, _, heq⟩ := hstep.published
  · rw [heq]
    exact h.distinct
  · rw [heq, List.map_append, List.nodup_append]
    refine ⟨h.distinct, List.nodup_singleton _, ?_⟩
    intro k₁ hold k₂ hnew hsame
    obtain ⟨m, hmem, rfl⟩ := List.mem_map.1 hold
    obtain ⟨_, hreturned⟩ := (h.genuine m hmem).returned
    have hk : m.task = k := hsame.trans (List.mem_singleton.1 hnew)
    rw [hk, htask, Option.some.injEq, Task.mk.injEq] at hreturned
    cases hreturned.2

/-- A loop that is about to send has the message's frame and a room under the message's id. -/
theorem applying_step (h : Sound fleet s tr) (hids : Function.Injective fleet.nodeId)
    (hstep : Step fleet s e s' out) {x : ν} {m : Message ν} {ref : RoomRef} {frame : Frame}
    (hloop : s'.loop x = .applying m ref frame) :
    frame = m.source.frame ∧ RoomAt (s'.manager x) ref m.source.roomId := by
  have hkeeps : s.loop x = .applying m ref frame →
      frame = m.source.frame ∧ RoomAt (s'.manager x) ref m.source.roomId := by
    intro hold
    obtain ⟨hframe, hroom⟩ := h.applying x m ref frame hold
    exact ⟨hframe, hstep.roomAt hroom⟩
  cases hstep with
  | @receive y message redis hwaiting hhand =>
    change (s.withLoop y _).loop x = _ at hloop
    rw [withLoop_loop] at hloop
    split at hloop
    · next heq =>
      subst heq
      rw [h.onMessage_of_hand hids hhand] at hloop
      split at hloop
      · cases hloop
      · cases hget : (s.manager x).get message.source.roomId with
        | none =>
          rw [hget] at hloop
          cases hloop
        | some hosted =>
          rw [hget] at hloop
          cases hloop
          exact ⟨rfl, (h.wellFormed x).mapped _ _ hget⟩
    · exact hkeeps hloop
  | @apply y message ref' frame' result mgr happlying hsent =>
    rw [withLoop_loop] at hloop
    split at hloop
    · cases hloop
    · exact hkeeps hloop
  | use hop hcall => exact hkeeps hloop
  | broadcast source => exact hkeeps hloop
  | enter htask hcall => exact hkeeps hloop
  | panic htask => exact hkeeps hloop
  | deliver htask hsent => exact hkeeps hloop
  | publish htask hreached => exact hkeeps hloop
  | publishLost htask hreached => exact hkeeps hloop
  | lose y i => exact hkeeps hloop

/-- Messages are handed over in the order of publication. -/
theorem inOrder_step (h : Sound fleet s tr) (hstep : Step fleet s e s' out) :
    s'.redis.InOrder (handed (tr ++ out)) := by
  have hquiet : ∀ x ref frame origin receivers,
      handed (tr ++ [.delivered x ref frame origin receivers]) = handed tr := by
    intro x ref frame origin receivers
    funext y
    simp [handed, Obs.handedTo]
  cases hstep with
  | @receive x message redis hwaiting hhand =>
    refine h.inOrder.hand hhand ?_ fun y hy => ?_
    · simp [handed, Obs.handedTo]
    · simp [handed, Obs.handedTo, Ne.symm hy]
  | lose x i =>
    rw [List.append_nil]
    exact h.inOrder.lose x i
  | publish htask hreached =>
    rw [List.append_nil]
    exact h.inOrder.publish _ _
  | deliver htask hsent =>
    rw [hquiet]
    exact h.inOrder
  | apply hloop hsent =>
    rw [hquiet]
    exact h.inOrder
  | use hop hcall =>
    rw [List.append_nil]
    exact h.inOrder
  | broadcast source =>
    rw [List.append_nil]
    exact h.inOrder
  | enter htask hcall =>
    rw [List.append_nil]
    exact h.inOrder
  | panic htask =>
    rw [List.append_nil]
    exact h.inOrder
  | publishLost htask hreached =>
    rw [List.append_nil]
    exact h.inOrder

/-- Deliveries of messages are those that are due, up to the one that a loop is about to make. -/
theorem perMessage_step (h : Sound fleet s tr) (hids : Function.Injective fleet.nodeId)
    (hstep : Step fleet s e s' out) (x : ν) :
    arrivals (tr ++ out) x ++ (s'.loop x).pending = due (tr ++ out) x := by
  have hold := h.perMessage x
  have happend : arrivals (tr ++ out) x = arrivals tr x ++ arrivals out x ∧
      due (tr ++ out) x = due tr x ++ due out x :=
    ⟨List.filterMap_append, List.filterMap_append⟩
  have hquiet : s'.loop x = s.loop x → arrivals out x = [] → due out x = [] →
      arrivals (tr ++ out) x ++ (s'.loop x).pending = due (tr ++ out) x := by
    intro hloop harrivals hdue
    rw [hloop, happend.1, happend.2, harrivals, hdue, List.append_nil, List.append_nil]
    exact hold
  cases hstep with
  | @receive y message redis hwaiting hhand =>
    by_cases heq : x = y
    · subst heq
      rw [hwaiting, Loop.pending, List.append_nil] at hold
      change arrivals (tr ++ _) x ++ ((s.withLoop x _).loop x).pending = _
      rw [withLoop_loop, if_pos rfl, h.onMessage_of_hand hids hhand, pending_after, happend.1,
        happend.2, due_handed, ← hold]
      have hnone : arrivals [.handed x message ((s.manager x).get message.source.roomId)] x = [] :=
        rfl
      rw [hnone, List.append_nil]
      by_cases hself : message.source.node = x
      · rw [if_pos hself, if_neg fun h => h.2 hself]
        rfl
      · rw [if_neg hself, if_pos ⟨rfl, hself⟩, Option.map_map]
        rfl
    · refine hquiet ?_ rfl ?_
      · change (s.withLoop y _).loop x = _
        rw [withLoop_loop, if_neg heq]
      · rw [due_handed, if_neg fun h => heq h.1.symm]
  | @apply y message ref frame result m hloop hsent =>
    by_cases heq : x = y
    · subst heq
      rw [hloop, Loop.pending] at hold
      rw [withLoop_loop, if_pos rfl, Loop.pending, List.append_nil, happend.1, happend.2, ← hold]
      simp [arrivals, Obs.arrival, due, Obs.due]
    · refine hquiet ?_ ?_ rfl
      · rw [withLoop_loop, if_neg heq]
        rfl
      · simp [arrivals, Obs.arrival, Ne.symm heq]
  | deliver htask hsent => exact hquiet rfl rfl rfl
  | use hop hcall => exact hquiet rfl rfl rfl
  | broadcast source => exact hquiet rfl rfl rfl
  | enter htask hcall => exact hquiet rfl rfl rfl
  | panic htask => exact hquiet rfl rfl rfl
  | publish htask hreached => exact hquiet rfl rfl rfl
  | publishLost htask hreached => exact hquiet rfl rfl rfl
  | lose y i => exact hquiet rfl rfl rfl

/-- Every step keeps the invariant. -/
theorem step (h : Sound fleet s tr) (hids : Function.Injective fleet.nodeId)
    (hstep : Step fleet s e s' out) : Sound fleet s' (tr ++ out) where
  wellFormed := h.wellFormed_step hstep
  sent x ref := by
    rw [hstep.sent, h.sent, pushes, pushes, pushes, List.filterMap_append]
  once k := by
    rw [hstep.delivered, ← h.once, deliveries, deliveries, deliveries, List.countP_append]
  delivering _ _ _ htask := h.delivering_step hstep htask
  applying _ _ _ _ hloop := h.applying_step hids hstep hloop
  justified _ _ _ _ _ hmem := h.justified_step hstep hmem
  genuine _ hmem := h.genuine_step hstep hmem
  distinct := h.distinct_step hstep
  inOrder := h.inOrder_step hstep
  perMessage := h.perMessage_step hids hstep

end Sound

/-- The invariant holds of managers that have just been made. -/
theorem sound_start [DecidableEq ν] (fleet : Fleet ν) (settings : ν → ℕ × Option StatsRecorder) :
    Sound fleet (start fun x => .empty (settings x).1 (settings x).2) [] where
  wellFormed x := RoomManager.wellFormed_empty (settings x).1 (settings x).2
  sent _ _ := rfl
  once _ := rfl
  delivering _ _ _ htask := by cases htask
  applying _ _ _ _ hloop := by cases hloop
  justified _ _ _ _ _ hmem := by cases hmem
  genuine _ hmem := by cases hmem
  distinct := List.nodup_nil
  inOrder := Broker.inOrder_empty
  perMessage _ := rfl

/-! ### What the invariant says -/

section Safety

variable [DecidableEq ν] {fleet : Fleet ν} {s s' : State ν} {e : Event ν} {tr out : List (Obs ν)}

omit [DecidableEq ν] in
/-- A reading that never shows more than another shows a sublist of it. -/
theorem filterMap_sublist {α β : Type*} {f g : α → Option β} {l : List α}
    (h : ∀ a ∈ l, f a = none ∨ f a = g a) : (l.filterMap f).Sublist (l.filterMap g) := by
  induction l with
  | nil => exact List.Sublist.refl []
  | cons a l ih =>
    have hrest := ih fun b hb => h b (List.mem_cons_of_mem a hb)
    rw [List.filterMap_cons, List.filterMap_cons]
    obtain hnone | hsame := h a List.mem_cons_self
    · rw [hnone]
      cases g a with
      | none => exact hrest
      | some b => exact hrest.cons b
    · rw [hsame]
      cases g a with
      | none => exact hrest
      | some b => exact hrest.cons_cons b

/-- The messages delivered on a node are among those handed to it, in the same order. -/
theorem Sound.arrivals_sublist (h : Sound fleet s tr) (x : ν) :
    ((arrivals tr x).map Prod.fst).Sublist (handed tr x) := by
  have hdue : ((due tr x).map Prod.fst).Sublist (handed tr x) := by
    rw [due, List.map_filterMap]
    apply filterMap_sublist
    intro o _
    cases o with
    | delivered y ref frame origin receivers => exact .inl rfl
    | handed y m hosted =>
      cases hosted with
      | none => exact .inl rfl
      | some ref =>
        by_cases hy : y = x
        · by_cases hself : m.source.node = x <;> simp [Obs.due, Obs.handedTo, hy, hself]
        · simp [Obs.due, Obs.handedTo, hy]
  rw [← h.perMessage x, List.map_append] at hdue
  exact (List.sublist_append_left _ _).trans hdue

/-- The frames pushed from one node to another's receivers are in the order of publication. -/
theorem Sound.ordered (h : Sound fleet s tr) (x y : ν) (roomId : Str) :
    (pushesFrom tr x y roomId).Sublist (s.publishedBy y roomId) := by
  have harrived : (pushesFrom tr x y roomId).Sublist
      ((((arrivals tr x).map Prod.fst).filter fun m =>
        m.source.node = y ∧ m.source.roomId = roomId).map fun m => m.source.frame) := by
    rw [arrivals, List.map_filterMap, List.filter_filterMap, List.map_filterMap]
    apply filterMap_sublist
    intro o hmem
    cases o with
    | handed x' m hosted => exact .inl rfl
    | delivered x' ref frame origin receivers =>
      cases origin with
      | task k => exact .inl rfl
      | message m =>
        obtain ⟨source, hsource, rfl, _⟩ := h.justified x' ref frame _ receivers hmem
        cases hsource
        by_cases hshown : x' = x ∧ receivers ≠ 0 ∧ m.source.node = y ∧ m.source.roomId = roomId
        · right
          obtain ⟨hx, hreceivers, hy, hroomId⟩ := hshown
          simp [Obs.pushFrom, Obs.arrival, hx, hreceivers, hy, hroomId]
        · exact .inl (if_neg hshown)
  refine harrived.trans (List.Sublist.map _ (List.Sublist.filter _ ?_))
  exact (h.arrivals_sublist x).trans (h.inOrder.handed_sublist x)

/-- The invariant makes the fan-out safe. -/
theorem Sound.safe (h : Sound fleet s tr) : SafeFanOut fleet s tr where
  pushed x ref room hroom := by
    rw [← h.sent x ref, RoomManager.sent, hroom, Option.elim_some]
  justified := h.justified
  oncePerBroadcast := h.once
  oncePerMessage := h.perMessage
  handedOnce x := (h.inOrder.handed_sublist x).nodup h.distinct.of_map
  handedPublished x := h.inOrder.handed_sublist x
  genuine := h.genuine
  distinct := h.distinct
  ordered := h.ordered

/-- Every run of a fleet with distinct node ids is safe, whatever calls are made, publishes fail and
messages are lost, and only local calls and local broadcasts change which rooms a node hosts. -/
theorem fanOut_safe [ChannelApi Frame] (fleet : Fleet ν) (hids : Function.Injective fleet.nodeId)
    (settings : ν → ℕ × Option StatsRecorder) {es : List (Event ν)}
    (hrun : (machine fleet).run es (start fun x => .empty (settings x).1 (settings x).2, []) =
      some (s, tr)) :
    SafeFanOut fleet s tr ∧ ∀ e s' out x, (machine fleet).step s e = some (s', out) →
      e.rehosts s ≠ some x → (s'.manager x).rooms = (s.manager x).rooms := by
  have h : Sound fleet s tr := Machine.run_induct_all (P := Sound fleet)
    (fun s tr e s' out hP hstep => hP.step hids (step_cases hstep)) hrun
    (sound_start fleet settings)
  exact ⟨h.safe, fun e s' out x hstep hx => (step_cases hstep).rooms hx⟩

end Safety

/-- Two nodes that tell themselves apart by the first byte of their ids. -/
def twoNodes : Fleet (Fin 2) where
  channelPrefix := ['r', ':']
  nodeId x := ⟨.ofNat x :: List.replicate 15 0, rfl⟩
  matched pattern channel := pattern.dropLast.isPrefixOf channel

/-- Both nodes host the lobby; the first broadcasts to it, and both are handed the message. -/
def lobbyBroadcast (x y : ν) : List (Event ν) :=
  [.use x (.getOrCreate ['l']), .use x (.subscribe 0), .use y (.getOrCreate ['l']),
    .use y (.subscribe 0), .broadcast ⟨x, ['l'], .binary [7]⟩, .enter 0, .deliver 0, .publish 0 .ok,
    .receive x, .receive y, .apply y]

/-- The frame is pushed once on each node, on the second one as a message of the first. -/
theorem fanOut_safe_lobbyBroadcast : ∃ s tr,
    (machine twoNodes).run (lobbyBroadcast 0 1) (start fun _ => .empty 16 none, []) = some (s, tr) ∧
      SafeFanOut twoNodes s tr ∧ pushes tr 0 0 = [.binary [7]] ∧ pushes tr 1 0 = [.binary [7]] ∧
      pushesFrom tr 1 0 ['l'] = [.binary [7]] ∧ pushesFrom tr 0 0 ['l'] = [] := by
  have hseen : ((machine twoNodes).run (lobbyBroadcast 0 1) (start fun _ => .empty 16 none, [])).any
      (fun c => decide (pushes c.2 0 0 = [.binary [7]]) && decide (pushes c.2 1 0 = [.binary [7]]) &&
        decide (pushesFrom c.2 1 0 ['l'] = [.binary [7]]) &&
        decide (pushesFrom c.2 0 0 ['l'] = [])) := by decide
  obtain ⟨⟨s, tr⟩, hrun, hfacts⟩ := (Option.any_eq_true _ _).1 hseen
  simp only [Bool.and_eq_true, decide_eq_true_eq] at hfacts
  obtain ⟨⟨⟨hfirst, hsecond⟩, hremote⟩, hecho⟩ := hfacts
  have hids : Function.Injective twoNodes.nodeId := by decide
  have hsafe := fanOut_safe twoNodes hids (fun _ => (16, none)) hrun
  exact ⟨s, tr, hrun, hsafe.1, hfirst, hsecond, hremote, hecho⟩

end WsKit.Cluster
