import WsKit.Channels
import WsKit.FanOutSafety

/-!
# Exactly once without failures

Redis promises nothing when it fails. When no message is lost, every publish reaches it and every
node's pattern covers the channels, the fan-out is also complete: once nothing is on its way, each
broadcast that has returned was delivered once on its own node and once on every other node that
hosted the room at the moment at which it was handed the message. All nodes are handed the
messages in one order.
-/

namespace WsKit.Cluster

open Base

variable {ν : Type*}

/-- A step in which Redis does not fail. -/
def Reliable (_ : State ν) (_ : List (Obs ν)) : Event ν → Prop
  | .lose _ _ => False
  | .publish _ outcome => outcome.reached = true
  | _ => True

instance (s : State ν) (tr : List (Obs ν)) : ∀ e, Decidable (Reliable s tr e)
  | .lose _ _ => isFalse id
  | .publish _ _ => inferInstanceAs (Decidable (_ = true))
  | .use _ _ => isTrue trivial
  | .broadcast _ => isTrue trivial
  | .enter _ => isTrue trivial
  | .deliver _ => isTrue trivial
  | .receive _ => isTrue trivial
  | .apply _ => isTrue trivial

/-- The pattern that every node subscribes to covers the channels of all rooms. -/
def Fleet.Covers (fleet : Fleet ν) : Prop :=
  ∀ roomId, fleet.matched (fleet.channelPrefix ++ ['*']) (fleet.channelPrefix ++ roomId) = true

/-- Under Redis' own matching a prefix without classes and escapes is covered. -/
theorem Fleet.covers_of_plain {fleet : Fleet ν} (hmatched : fleet.matched = Glob.globMatch)
    (hplain : Glob.Plain fleet.channelPrefix) : fleet.Covers := by
  intro roomId
  have hcovered := RedisRoomRegistry.covers_of_plain hplain
  rw [hmatched, Glob.globMatch]
  exact Glob.forall_matched_append_iff.2 hcovered roomId

/-- The default prefix of the channels. -/
def defaultChannelPrefix : Str :=
  ['w', 's', '-', 'k', 'i', 't', ':', 'r', 'o', 'o', 'm', ':']

/-- Nodes that connect with the default prefix are covered. -/
theorem Fleet.covers_of_default {fleet : Fleet ν} (hmatched : fleet.matched = Glob.globMatch)
    (hdefault : fleet.channelPrefix = defaultChannelPrefix) : fleet.Covers := by
  refine Fleet.covers_of_plain hmatched ?_
  rw [hdefault]
  exact ⟨by decide, by decide⟩

/-- Nothing is on its way: no message waits and no loop is about to send. -/
structure Quiescent (s : State ν) : Prop where
  drained : ∀ x, s.redis.queue x = []
  waiting : ∀ x, s.loop x = .waiting

variable [DecidableEq ν]

/-- A message handed to a node, with the room that it hosts under the broadcast's id. -/
def Obs.handedWith (x : ν) : Obs ν → Option (Message ν × Option RoomRef)
  | .handed y m hosted => if y = x then some (m, hosted) else none
  | .delivered _ _ _ _ _ => none

/-- The messages handed to a node, with the rooms that it hosted at these moments. -/
def handedWith (tr : List (Obs ν)) (x : ν) : List (Message ν × Option RoomRef) :=
  tr.filterMap (Obs.handedWith x)

/-- The delivery that a handed message makes due. -/
def dueFor (x : ν) (handed : Message ν × Option RoomRef) : Option (Message ν × RoomRef × Frame) :=
  if handed.1.source.node = x then none
  else handed.2.map fun ref => (handed.1, ref, handed.1.source.frame)

/-- The messages handed to a node, without the rooms. -/
theorem map_fst_handedWith (tr : List (Obs ν)) (x : ν) :
    (handedWith tr x).map Prod.fst = handed tr x := by
  rw [handedWith, List.map_filterMap, handed]
  congr 1
  funext o
  cases o with
  | delivered y ref frame origin receivers => rfl
  | handed y m hosted =>
    simp only [Obs.handedWith, Obs.handedTo]
    split <;> rfl

/-- The deliveries due are read off from what was handed over. -/
theorem due_eq (tr : List (Obs ν)) (x : ν) : due tr x = (handedWith tr x).filterMap (dueFor x) := by
  rw [handedWith, List.filterMap_filterMap, due]
  congr 1
  funext o
  cases o with
  | delivered y ref frame origin receivers => rfl
  | handed y m hosted =>
    cases hosted with
    | none =>
      simp only [Obs.handedWith, Obs.due]
      split <;> simp [dueFor]
    | some ref =>
      simp only [Obs.handedWith, Obs.due]
      by_cases hy : y = x <;> by_cases hself : m.source.node = x <;> simp [hy, hself, dueFor]

/-- What every reliable run keeps besides its safety: Redis has lost nothing, and every broadcast
that has returned without a panic was published. -/
structure Complete (s : State ν) (tr : List (Obs ν)) : Prop where
  lossless : s.redis.Lossless (handed tr)
  published : ∀ (k : ℕ) (source : Broadcast ν) (result : Outcome WsError ℕ),
    s.tasks[k]? = some ⟨source, .returned result⟩ → result ≠ .error .panicked →
    ∃ m ∈ s.redis.published, m.task = k

variable {fleet : Fleet ν} {s s' : State ν} {e : Event ν} {tr out : List (Obs ν)}

omit [DecidableEq ν] in
/-- A broadcast that has returned did so before, or was moved on by the step. -/
theorem returned_setPhase {t : State ν} {k k' : ℕ} {next : Phase} {source : Broadcast ν}
    {result : Outcome WsError ℕ} (ht : t.tasks = s.tasks)
    (htask : (t.setPhase k' next).tasks[k]? = some ⟨source, .returned result⟩) :
    s.tasks[k]? = some ⟨source, .returned result⟩ ∨ k = k' ∧ next = .returned result := by
  rw [setPhase_tasks, ht] at htask
  split at htask
  · next heq =>
    obtain ⟨task, _, hmoved⟩ := Option.map_eq_some_iff.1 htask
    exact .inr ⟨heq, (Task.mk.inj hmoved).2⟩
  · exact .inl htask

/-- The only message of a broadcast among those published. -/
theorem filter_task_eq (h : Sound fleet s tr) {m : Message ν} (hmem : m ∈ s.redis.published) :
    s.redis.published.filter (fun m' => m'.task = m.task) = [m] := by
  have hnodup := h.distinct.of_map
  refine List.perm_singleton.1 ((List.perm_ext_iff_of_nodup (hnodup.filter _)
    (List.nodup_singleton m)).2 fun m' => ?_)
  rw [List.mem_filter, List.mem_singleton, decide_eq_true_iff]
  constructor
  · rintro ⟨hmem', hsame⟩
    exact List.inj_on_of_nodup_map h.distinct hmem' hmem hsame
  · rintro rfl
    exact ⟨hmem, rfl⟩

/-- The deliveries due for a broadcast come from the messages handed over for it. -/
theorem filter_due (k : ℕ) (x : ν) (handed : List (Message ν × Option RoomRef)) :
    (handed.filterMap (dueFor x)).filter (fun a => a.1.task = k) =
      (handed.filter fun h => h.1.task = k).filterMap (dueFor x) := by
  induction handed with
  | nil => rfl
  | cons h handed ih =>
    rw [List.filterMap_cons, List.filter_cons]
    cases hdue : dueFor x h with
    | none =>
      dsimp only
      rw [ih]
      split
      · rw [List.filterMap_cons_none hdue]
      · rfl
    | some a =>
      have hsame : a.1 = h.1 := by
        rw [dueFor] at hdue
        obtain ⟨-, hdue⟩ := Option.ite_none_left_eq_some.1 hdue
        obtain ⟨ref, -, rfl⟩ := Option.map_eq_some_iff.1 hdue
        rfl
      dsimp only
      rw [List.filter_cons, hsame, ih]
      split
      · rw [List.filterMap_cons_some hdue]
      · rfl

omit [DecidableEq ν] in
/-- A loop that owes nothing waits. -/
theorem waiting_of_pending {loop : Loop ν} (h : loop.pending = []) : loop = .waiting := by
  cases loop with
  | waiting => rfl
  | applying m ref frame => cases h

section AnyChannel

variable [ChannelApi Frame]

/-- In a reliable step Redis loses nothing. -/
theorem Complete.lossless_step (h : Complete s tr) (hcovers : fleet.Covers)
    (hreliable : Reliable s tr e) (hstep : Step fleet s e s' out) :
    s'.redis.Lossless (handed (tr ++ out)) := by
  have hquiet : ∀ x ref frame origin receivers,
      handed (tr ++ [.delivered x ref frame origin receivers]) = handed tr := by
    intro x ref frame origin receivers
    funext y
    simp [handed, Obs.handedTo]
  cases hstep with
  | @receive x message redis hwaiting hhand =>
    refine h.lossless.hand hhand ?_ fun y hy => ?_
    · simp [handed, Obs.handedTo]
    · simp [handed, Obs.handedTo, Ne.symm hy]
  | publish htask hreached =>
    rw [List.append_nil]
    exact h.lossless.publish (fun _ => hcovers _) _
  | publishLost htask hlost =>
    rw [Reliable, hlost] at hreliable
    cases hreliable
  | lose x i => exact hreliable.elim
  | deliver htask hsent =>
    rw [hquiet]
    exact h.lossless
  | apply hloop hsent =>
    rw [hquiet]
    exact h.lossless
  | use hop hcall =>
    rw [List.append_nil]
    exact h.lossless
  | broadcast source =>
    rw [List.append_nil]
    exact h.lossless
  | enter htask hcall =>
    rw [List.append_nil]
    exact h.lossless
  | panic htask =>
    rw [List.append_nil]
    exact h.lossless

/-- In a reliable step a broadcast returns after its message was published. -/
theorem Complete.published_step (h : Complete s tr) (hreliable : Reliable s tr e)
    (hstep : Step fleet s e s' out) {k : ℕ} {source : Broadcast ν} {result : Outcome WsError ℕ}
    (htask : s'.tasks[k]? = some ⟨source, .returned result⟩) (hresult : result ≠ .error .panicked) :
    ∃ m ∈ s'.redis.published, m.task = k := by
  have hkept : s.tasks[k]? = some ⟨source, .returned result⟩ →
      ∃ m ∈ s'.redis.published, m.task = k := by
    intro hold
    obtain ⟨m, hmem, hk⟩ := h.published k source result hold hresult
    refine ⟨m, ?_, hk⟩
    obtain heq | ⟨_, _, _, _, _, _, heq⟩ := hstep.published
    · rwa [heq]
    · rw [heq]
      exact List.mem_append_left _ hmem
  cases hstep with
  | @publish k' source' delivered outcome htask' hreached =>
    obtain hold | ⟨rfl, -⟩ := returned_setPhase (s := s) (by rfl) htask
    · exact hkept hold
    · exact ⟨_, List.mem_append_right _ List.mem_cons_self, rfl⟩
  | publishLost htask' hlost =>
    rw [Reliable, hlost] at hreliable
    cases hreliable
  | enter htask' hcall =>
    obtain hold | ⟨-, hnext⟩ := returned_setPhase (s := s) (by rfl) htask
    · exact hkept hold
    · cases hnext
  | deliver htask' hsent =>
    obtain hold | ⟨-, hnext⟩ := returned_setPhase (s := s) (by rfl) htask
    · exact hkept hold
    · cases hnext
  | panic htask' =>
    obtain hold | ⟨-, hnext⟩ := returned_setPhase (s := s) rfl htask
    · exact hkept hold
    · cases hnext
      exact absurd rfl hresult
  | broadcast source' =>
    change (s.tasks ++ [_])[k]? = _ at htask
    rw [List.getElem?_append] at htask
    split at htask
    · exact hkept htask
    · cases hk : k - s.tasks.length <;> simp [hk] at htask
  | use hop hcall => exact hkept htask
  | apply hloop hsent => exact hkept htask
  | lose x i => exact hkept htask
  | receive hloop hhand => exact hkept htask

/-- In a run in which Redis neither loses a message nor misses a publish, of a fleet whose pattern
covers its channels, every node is handed all messages in the order of publication, up to those
still on their way. When nothing is, each broadcast that has returned, and did not panic over the
room's capacity, was delivered once locally and was handed to each node once; it was delivered
there once if the node hosted the room at that moment and is not the publisher, else not at all. -/
theorem fanOut_complete (fleet : Fleet ν) (hids : Function.Injective fleet.nodeId)
    (hcovers : fleet.Covers) (settings : ν → ℕ × Option StatsRecorder) {es : List (Event ν)}
    (hrun : (machine fleet).run es (start fun x => .empty (settings x).1 (settings x).2, []) =
      some (s, tr))
    (hreliable : (machine fleet).Meets Reliable es
      (start fun x => .empty (settings x).1 (settings x).2, [])) :
    (∀ x, handed tr x ++ s.redis.queue x = s.redis.published) ∧
    (Quiescent s → ∀ (k : ℕ) (source : Broadcast ν) (result : Outcome WsError ℕ),
      s.tasks[k]? = some ⟨source, .returned result⟩ → result ≠ .error .panicked →
      deliveries tr k = 1 ∧
      ∀ x, ∃ m hosted, (handedWith tr x).filter (fun h => h.1.task = k) = [(m, hosted)] ∧
        m.source = source ∧
        (arrivals tr x).filter (fun a => a.1.task = k) =
          if source.node = x then [] else (hosted.map fun ref => (m, ref, source.frame)).toList) := by
  have hinv : Sound fleet s tr ∧ Complete s tr := by
    refine Machine.run_induct (P := fun s tr => Sound fleet s tr ∧ Complete s tr)
      (fun s tr e s' out h hreliable hstep => ?_) hrun hreliable
      ⟨sound_start fleet settings, Broker.lossless_empty, fun k source result htask => by cases htask⟩
    obtain ⟨hsound, hcomplete⟩ := h
    have hcase := step_cases hstep
    exact ⟨hsound.step hids hcase, hcomplete.lossless_step hcovers hreliable hcase,
      fun k source result htask hresult =>
        hcomplete.published_step hreliable hcase htask hresult⟩
  obtain ⟨hsound, hcomplete⟩ := hinv
  refine ⟨hcomplete.lossless, fun hquiet k source result htask hresult => ⟨?_, fun x => ?_⟩⟩
  · rw [hsound.once k, State.delivered, htask, Option.elim_some]
    exact if_neg hresult
  · obtain ⟨m, hmem, hk⟩ := hcomplete.published k source result htask hresult
    obtain ⟨result', htask'⟩ := (hsound.genuine m hmem).returned
    have hsource : m.source = source := by
      rw [hk, htask, Option.some.injEq, Task.mk.injEq] at htask'
      exact htask'.1.symm
    have hhanded : handed tr x = s.redis.published := by
      rw [← hcomplete.lossless x, hquiet.drained x, List.append_nil]
    have honly := filter_task_eq hsound hmem
    rw [← hhanded, ← map_fst_handedWith, List.filter_map, hk] at honly
    obtain ⟨⟨m', hosted⟩, hone, hfst⟩ := List.map_eq_singleton_iff.1 honly
    obtain rfl : m' = m := hfst
    have harrived : arrivals tr x = due tr x := by
      rw [← hsound.perMessage x, hquiet.waiting x]
      exact (List.append_nil _).symm
    have hfiltered : (handedWith tr x).filter (fun h => h.1.task = k) = [(m', hosted)] := hone
    refine ⟨m', hosted, hfiltered, hsource, ?_⟩
    rw [harrived, due_eq, filter_due, hfiltered, ← hsource]
    by_cases hself : m'.source.node = x
    · rw [if_pos hself]
      simp [dueFor, hself]
    · rw [if_neg hself]
      cases hosted <;> simp [dueFor, hself]

end AnyChannel

/-- The two nodes' pattern covers their channels. -/
theorem twoNodes_covers : twoNodes.Covers := by
  intro roomId
  change ((twoNodes.channelPrefix ++ ['*']).dropLast.isPrefixOf (twoNodes.channelPrefix ++ roomId)) = true
  rw [List.dropLast_concat, List.isPrefixOf_iff_prefix]
  exact List.prefix_append _ _

/-- The lobby broadcast is delivered once on either node. -/
theorem fanOut_complete_lobbyBroadcast : ∃ s tr,
    (machine twoNodes).run (lobbyBroadcast 0 1) (start fun _ => .empty 16 none, []) = some (s, tr) ∧
      deliveries tr 0 = 1 ∧
      ∃ m, (arrivals tr 1).filter (fun a => a.1.task = 0) = [(m, 0, .binary [7])] := by
  have hseen : ((machine twoNodes).run (lobbyBroadcast 0 1) (start fun _ => .empty 16 none, [])).any
      (fun c => decide (∀ x, c.1.redis.queue x = []) && decide (∀ x, (c.1.loop x).pending = []) &&
        decide ((c.1.tasks[0]?).map (fun task => (task.source, task.phase)) =
          some (⟨0, ['l'], .binary [7]⟩, .returned (.ok 1))) &&
        decide ((handedWith c.2 1).map Prod.snd = [some 0])) := by decide
  obtain ⟨⟨s, tr⟩, hrun, hfacts⟩ := (Option.any_eq_true _ _).1 hseen
  simp only [Bool.and_eq_true, decide_eq_true_eq] at hfacts
  obtain ⟨⟨⟨hdrained, hpending⟩, htask⟩, hhosted⟩ := hfacts
  obtain ⟨⟨source, phase⟩, htask, heq⟩ := Option.map_eq_some_iff.1 htask
  obtain ⟨rfl, rfl⟩ := Prod.mk.inj heq
  have hids : Function.Injective twoNodes.nodeId := by decide
  have hcomplete := fanOut_complete twoNodes hids twoNodes_covers (fun _ => (16, none)) hrun
    (by decide)
  obtain ⟨honce, hnodes⟩ := hcomplete.2 ⟨hdrained, fun x => waiting_of_pending (hpending x)⟩ 0 _ _
    htask (by decide)
  obtain ⟨m, hosted, hone, -, harrived⟩ := hnodes 1
  have hroom : hosted = some 0 := by
    have hmem : (m, hosted) ∈ handedWith tr 1 :=
      List.mem_of_mem_filter (hone ▸ List.mem_cons_self)
    have hsnd := List.mem_map_of_mem (f := Prod.snd) hmem
    rw [hhosted] at hsnd
    exact List.mem_singleton.1 hsnd
  rw [hroom] at harrived
  exact ⟨s, tr, hrun, honce, m, harrived⟩

end WsKit.Cluster
